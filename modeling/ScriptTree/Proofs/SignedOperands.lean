/-
  ScriptTree/Proofs/SignedOperands.lean
  =====================================
  **Signs before signed operands.**  An operator of one operand is written in front of its operand,
  and a negative constant is written without brackets.  So the minus of a minus one is a decrement:
  `(--1)`.  This is the only way in which signs meet: if no name has a sign in it, then two minus
  signs stand in a row outside of strings exactly where a minus is put before an operand that is led
  by a negative constant, and two plus signs never (`renderExpr_signs`).  In the same way the base of a
  power begins with a sign exactly if a negative constant leads it, which the script does not
  allow before `**`.

  A constant leads an expression if it is the expression, or leads what an attribute, an item or a
  call is taken of.  All other expressions begin with a bracket, a name or points.
-/
import ScriptTree.Proofs.ComparisonChains
import ScriptTree.Proofs.DoubledSigns
import ScriptTree.Proofs.EventTrail
import ScriptTree.Proofs.NestedTexts

namespace ScriptTree

open Rendition

/-! ### Trees -/

/-- A form whose names have no quotes and no signs in them, and whose strings mean themselves between
    two quotes. -/
structure ExprForm.Clean {ε : Type} (q : Quoting) (form : ExprForm ε) : Prop where
  names : ∀ name ∈ form.names, Plainly name
  strings : ∀ s ∈ form.strings, q.Admits s.toList

/-- Every form that is rendered in the expression is clean. -/
def Expr.Clean (q : Quoting) (e : Expr) : Prop := ∀ c : Expr, c.Reached e → c.form.Clean q

/-- The child whose text comes first, without anything before it. -/
def ExprForm.leader? {ε : Type} : ExprForm ε → Option ε
  | .attribute value _ | .subscript value _ | .call value _ _ => some value
  | _ => none

/-- The forms whose rules only put guards between the texts of their children. -/
def ExprForm.isWoven {ε : Type} : ExprForm ε → Bool
  | .constant _ | .unaryOp _ _ => false
  | _ => true

/-- Whether a form is led by a negative constant, from the same about its children. -/
def ExprForm.ledByMinus : ExprForm Bool → Bool
  | .constant value => value.isNegative
  | form => form.leader?.getD false

def Expr.ledByMinus : Expr → Bool := Expr.fold fun _ form => form.ledByMinus

/-- A minus is put before an operand that is led by a negative constant. -/
def Expr.Fuses (e : Expr) : Prop :=
  ∃ l operand, Expr.Reached ⟨l, .unaryOp .minus operand⟩ e ∧ operand.ledByMinus = true

instance {ε : Type} (q : Quoting) (form : ExprForm ε) : Decidable (form.Clean q) :=
  decidable_of_iff ((∀ name ∈ form.names, Plainly name) ∧ ∀ s ∈ form.strings, q.Admits s.toList)
    ⟨fun h => ⟨h.1, h.2⟩, fun h => ⟨h.names, h.strings⟩⟩

variable {q : Quoting}

theorem Expr.clean_mk {l : Loc} {form : ExprForm Expr} :
    (⟨l, form⟩ : Expr).Clean q ↔ form.Clean q ∧ ∀ c ∈ form.reached, c.Clean q := by
  constructor
  · intro h
    exact ⟨h _ (.here _), fun c hc d hd => h d (.child hc hd)⟩
  · rintro ⟨hform, hreached⟩ c hc
    cases hc with
    | here => exact hform
    | child hchild hc => exact hreached _ hchild c hc

theorem Expr.Clean.of_reached {d e : Expr} (he : e.Clean q) (h : d.Reached e) : d.Clean q := by
  induction h with
  | here => exact he
  | @child c e hc _ ih =>
    obtain ⟨l, form⟩ := e
    exact ih ((clean_mk.mp he).2 c hc)

theorem Expr.ledByMinus_mk (l : Loc) (form : ExprForm Expr) :
    Expr.ledByMinus ⟨l, form⟩ = (form.map Expr.ledByMinus).ledByMinus :=
  Expr.fold_mk _ l form

theorem Expr.fuses_mk {l : Loc} {form : ExprForm Expr} :
    (⟨l, form⟩ : Expr).Fuses ↔
      (∃ operand, form = .unaryOp .minus operand ∧ operand.ledByMinus = true) ∨
        ∃ c ∈ form.reached, c.Fuses := by
  constructor
  · rintro ⟨l', operand, hreached, hled⟩
    cases hreached with
    | here => exact Or.inl ⟨operand, rfl, hled⟩
    | child hc hreached => exact Or.inr ⟨_, hc, l', operand, hreached, hled⟩
  · rintro (⟨operand, rfl, hled⟩ | ⟨c, hc, l', operand, hreached, hled⟩)
    · exact ⟨l, operand, .here _, hled⟩
    · exact ⟨l', operand, .child hc hreached, hled⟩

/-! ### What the rules write -/

/-- Rendering the expression gives the text. -/
def Expr.WrittenAs (e : Expr) (t : String) : Prop := e.text = .ok t

/-- The text is woven of those of the children that are rendered, and only a leader can give it a sign
    to begin with. -/
structure ExprForm.Weaves (q : Quoting) (form : ExprForm Expr) (t : String) : Prop where
  parts : ∃ es, Woven q Expr.WrittenAs es t ∧ ∀ e, e ∈ es ↔ e ∈ form.reached
  head : ∀ sign, IsSign sign → (t.toList.head? = some sign ↔
    ∃ c ∈ form.leader?, ∃ u, c.WrittenAs u ∧ u.toList.head? = some sign)

section Weaves

variable {form : ExprForm Expr} {es : List Expr} {t : String}

theorem ExprForm.weaves_of_unsigned (hwoven : Woven q Expr.WrittenAs es t)
    (hes : ∀ e, e ∈ es ↔ e ∈ form.reached) (hleader : form.leader? = none) (ht : Unsigned t) :
    form.Weaves q t := by
  refine ⟨⟨es, hwoven, hes⟩, fun sign hsign => ?_⟩
  simp [hleader, ht sign hsign]

theorem ExprForm.weaves_of_leader {c : Expr} {u g : String}
    (hwoven : Woven q Expr.WrittenAs es t) (hes : ∀ e, e ∈ es ↔ e ∈ form.reached)
    (hleader : form.leader? = some c) (hc : c.WrittenAs u) (hg : Guard g)
    (ht : ∃ rest, t = u ++ g ++ rest) : form.Weaves q t := by
  obtain ⟨rest, ht⟩ := ht
  refine ⟨⟨es, hwoven, hes⟩, fun sign hsign => ?_⟩
  have hsame : ∀ v, c.WrittenAs v → v = u := fun v hv => Except.ok.inj (hv.symm.trans hc)
  rw [ht, head_append_guard hg hsign, hleader]
  constructor
  · intro hhead
    exact ⟨c, rfl, u, hc, hhead⟩
  · rintro ⟨d, hd, v, hv, hhead⟩
    obtain rfl : c = d := Option.some.inj hd
    rwa [hsame v hv] at hhead

end Weaves

namespace Plain

/-- The results that a list of actions ensures, one by one. -/
theorem ensures_each {γ α : Type} {f : γ → Plain α} {R : γ → α → Prop} {xs : List γ}
    (h : ∀ x ∈ xs, (f x).Ensures (R x)) : (all (xs.map f)).Ensures (List.Forall₂ R xs) := by
  induction xs with
  | nil => exact ensures_pure .nil
  | cons x rest ih =>
    obtain ⟨hx, hrest⟩ := List.forall_mem_cons.mp h
    exact hx.bind fun a ha => (ih hrest).map fun as has => .cons ha has

theorem run_direct (e : Expr) (s : ScopeStack) : ((e.direct : Plain String).run s).1 = e.text := by
  have hplain := (((transparency id (e.nodes []) (Set.injOn_id _)).render_expr e [] subset_rfl).1
    (Renderer.withScopes s).startPass fresh_empty).1
  rw [Expr.text_eq_draft, ← renderExpr_result id (Set.injOn_id _) (Renderer.withScopes s)]
  exact congrArg Prod.fst hplain

theorem ensures_written (e : Expr) : (e.direct : Plain String).Ensures e.WrittenAs :=
  fun s _ ht => (run_direct e s).symm.trans ht

theorem ensures_part (q : Quoting) (e : Expr) :
    (e.direct : Plain String).Ensures (Woven q Expr.WrittenAs [e]) :=
  fun s t ht => .part (ensures_written e s t ht)

theorem ensures_parts (q : Quoting) (es : List Expr) {separator : String} (hg : Guard separator) :
    (joined separator (es.map Expr.direct) : Plain String).Ensures (Woven q Expr.WrittenAs es) := by
  refine (ensures_each fun e _ => ensures_part q e).map fun texts htexts => ?_
  have hwoven := Woven.intercalate hg htexts
  rwa [List.flatMap_singleton'] at hwoven

theorem weaves_param {params : Params Expr} (i : Nat) {param : Param} (hname : Plainly param.name) :
    ((params.map Expr.direct).directParam i param : Plain String).Ensures
      (Woven q Expr.WrittenAs (params.default? i).toList) := by
  have hindex : (params.map (Expr.direct (M := Plain))).defaultIndex? i = params.defaultIndex? i := by
    simp [Params.defaultIndex?, Params.map, Params.positional]
  rw [Params.directParam, Params.default?, hindex]
  cases params.defaultIndex? i with
  | none => exact ensures_pure (.plain hname)
  | some j =>
    have hdefault : (params.map (Expr.direct (M := Plain))).defaults[j]? =
        params.defaults[j]?.map Expr.direct := List.getElem?_map
    simp only [hdefault, Option.bind_some]
    cases params.defaults[j]? with
    | none => exact ensures_pure (.plain hname)
    | some e =>
      have hequals : Guard " = " := by decide
      exact (ensures_part q e).map fun t ht => (Woven.plain hname).append hequals ht

theorem weaves_params (q : Quoting) {params : Params Expr}
    (hnames : ∀ name ∈ params.boundNames, Plainly name) :
    ((params.map Expr.direct).direct : Plain String).Ensures
      (Woven q Expr.WrittenAs params.dealt) := by
  have hparam : ∀ param ∈ params.positional ++ params.rest.toList, Plainly param.name :=
    fun param hmem => hnames _ (Params.name_mem_boundNames hmem)
  have hall : (all (params.positional.mapIdx (params.map Expr.direct).directParam) :
      Plain (List String)).Ensures (List.Forall₂ (Woven q Expr.WrittenAs)
        (((List.range params.positional.length).map params.default?).map Option.toList)) := by
    rw [List.mapIdx_eq_zipIdx_map, List.range_eq_range', ← List.zipIdx_map_snd, List.map_map,
      List.map_map]
    refine fun s texts htexts => List.forall₂_map_left_iff.mpr (ensures_each ?_ s texts htexts)
    intro x hx
    have hmem := List.fst_mem_of_mem_zipIdx hx
    exact weaves_param x.2 (hparam x.1 (List.mem_append_left _ hmem))
  have hrest : List.Forall₂ (Woven q Expr.WrittenAs) (params.rest.toList.map fun _ => [])
      (params.rest.toList.map fun param => "..." ++ param.name) := by
    have hpoints : Plainly "..." := by decide
    rw [List.forall₂_map_left_iff, List.forall₂_map_right_iff, List.forall₂_same]
    intro param hmem
    exact .plain (hpoints.append (hparam param (List.mem_append_right _ hmem)))
  have hcomma : Guard ", " := by decide
  have hgroups : ((((List.range params.positional.length).map params.default?).map Option.toList) ++
      params.rest.toList.map fun _ => []).flatMap id = params.dealt := by
    rw [params.defaults_dealt]
    simp [Function.comp_def, ← List.flatMap_def]
  obtain ⟨loc, posOnly, args, rest, kwOnly, kwRest, defaults⟩ := params
  cases kwOnly with
  | cons param more => exact (ensures_fail _).around _
  | nil =>
    cases kwRest with
    | some param => exact (ensures_fail _).around _
    | none =>
      refine hall.map fun texts htexts => ?_
      have hwoven := Woven.intercalate (f := id) hcomma (List.rel_append htexts hrest)
      rw [hgroups] at hwoven
      exact hwoven

theorem weaves_entry (q : Quoting) (key : Option Expr) (value : Expr) :
    (ExprForm.directEntry (key.map Expr.direct, value.direct) : Plain String).Ensures
      (Woven q Expr.WrittenAs (key.toList ++ [value])) := by
  have hpoints : Guard "..." := by decide
  have hcolon : Guard ": " := by decide
  rw [ExprForm.directEntry]
  cases key with
  | none => exact (ensures_part q value).map fun v hv => hv.before hpoints
  | some e =>
    exact (ensures_part q value).bind fun v hv => (ensures_part q e).map fun k hk => hk.append hcolon hv

end Plain

theorem woven_operation {d e : Expr} {a b sign : String} (ha : d.WrittenAs a) (hsign : Still q sign)
    (hb : e.WrittenAs b) :
    Woven q Expr.WrittenAs [d, e] ("(" ++ a ++ " " ++ sign ++ " " ++ b ++ ")") := by
  have hopening : Guard "(" := by decide
  have hblank : Guard " " := by decide
  have hclosing : Guard ")" := by decide
  have hleft : Woven q Expr.WrittenAs [d] ("(" ++ a) := .before hopening (.part ha)
  exact ((hleft.append hblank (.still hsign)).append hblank (.part hb)).after hclosing

/-- Each comparison of a chain is woven of its two operands, and every operand is in one. -/
theorem woven_comparisons {es : List Expr} {ops : List CmpOperator} {texts pairs : List String}
    (htexts : List.Forall₂ Expr.WrittenAs es texts) (hlength : es.length = ops.length + 1)
    (hops : ops ≠ []) (h : ExprForm.comparisons texts ops = .ok pairs) :
    ∃ groups, List.Forall₂ (fun group t => Woven q Expr.WrittenAs group t ∧ Unsigned t) groups pairs ∧
      ∀ e, e ∈ groups.flatten ↔ e ∈ es := by
  have hopening : Guard "(" := by decide
  induction ops generalizing es texts pairs with
  | nil => exact absurd rfl hops
  | cons op ops ih =>
    obtain ⟨a, es, rfl⟩ := List.exists_cons_of_length_eq_add_one hlength
    obtain ⟨b, es, rfl⟩ := List.exists_cons_of_length_eq_add_one (Nat.succ.inj hlength)
    obtain ⟨left, others, hleft, hothers, rfl⟩ := List.forall₂_cons_left_iff.mp htexts
    obtain ⟨right, rest, hright, -, rfl⟩ := List.forall₂_cons_left_iff.mp hothers
    obtain ⟨sign, more, hspell, hmore, rfl⟩ := comparisons_cons h
    have hstill : Still q sign := (CmpOperator.plainly_spell hspell).still
    have hpair := woven_operation hleft hstill hright
    have hunsigned : Unsigned ("(" ++ left ++ " " ++ sign ++ " " ++ right ++ ")") :=
      hopening.unsigned_of_prefix (by simp)
    by_cases hlast : ops = []
    · subst hlast
      obtain rfl : es = [] := by simpa using hlength
      obtain rfl : more = [] := by cases rest <;> cases hmore <;> rfl
      exact ⟨[[a, b]], .cons ⟨hpair, hunsigned⟩ .nil, by simp⟩
    · obtain ⟨groups, hgroups, hmem⟩ := ih hothers (Nat.succ.inj hlength) hlast hmore
      refine ⟨[a, b] :: groups, .cons ⟨hpair, hunsigned⟩ hgroups, fun e => ?_⟩
      rw [List.flatten_cons, List.mem_append, hmem]
      simp only [List.mem_cons, List.not_mem_nil, or_false]
      tauto

theorem woven_conjunction {groups : List (List Expr)} {pairs : List String}
    (h : List.Forall₂ (fun group t => Woven q Expr.WrittenAs group t ∧ Unsigned t) groups pairs) :
    Woven q Expr.WrittenAs groups.flatten (ExprForm.conjunction pairs) ∧
      Unsigned (ExprForm.conjunction pairs) := by
  unfold ExprForm.conjunction
  split
  · obtain ⟨group, groups, hgroup, hgroups, rfl⟩ := List.forall₂_cons_right_iff.mp h
    obtain rfl := List.forall₂_nil_right_iff.mp hgroups
    rwa [List.flatten_singleton]
  · have hopening : Guard "(" := by decide
    have hand : Guard " && " := by decide
    have hclosing : Guard ")" := by decide
    have hpairs := Woven.intercalate (f := id) hand (h.imp fun _ _ => And.left)
    rw [List.flatMap_id] at hpairs
    exact ⟨(Woven.before hopening hpairs).after hclosing, hopening.unsigned_of_prefix (by simp)⟩

theorem ExprForm.plain_weaves {form : ExprForm Expr} (hclean : form.Clean q)
    (hwoven : form.isWoven = true) :
    ((form.map Expr.direct).direct : Plain String).Ensures (form.Weaves q) := by
  have hround : Guard "(" := by decide
  have hround' : Guard ")" := by decide
  have hcomma : Guard ", " := by decide
  cases form with
  | boolOp op values =>
    have hop : Guard (" " ++ op.spelling ++ " ") := by cases op <;> decide
    refine (Plain.ensures_each fun e _ => Plain.ensures_part q e).map fun texts htexts => ?_
    have hwoven := (Woven.before hround (Woven.intercalate hop htexts)).after hround'
    rw [List.flatMap_singleton'] at hwoven
    exact weaves_of_unsigned hwoven (fun e => Iff.rfl) rfl
      (hround.unsigned_of_prefix (by simp))
  | binOp left op right =>
    have hleft := (Plain.ensures_written left).read
    have hright := (Plain.ensures_written right).read
    by_cases hop : op = .floorDiv
    · subst hop
      have hfloor : Guard "(Math.floor(" := by decide
      have hslash : Guard " / " := by decide
      have hend : Guard "))" := by decide
      refine hleft.bind fun a ha => hright.map fun b hb => ?_
      have hwoven : Woven q Expr.WrittenAs [left, right] ("(Math.floor(" ++ a ++ " / " ++ b ++ "))") :=
        ((Woven.before hfloor (.part ha)).append hslash (.part hb)).after hend
      exact weaves_of_unsigned hwoven (fun e => Iff.rfl) rfl
        (hfloor.unsigned_of_prefix (by simp))
    · have hsign : (given op.spell : Plain String).Ensures (Still q) :=
        Plain.ensures_given fun sign hspell => BinaryOperator.still_spell hspell
      simp only [ExprForm.map]
      rw [Simulation.direct_binOp hop]
      refine hleft.bind fun a ha => hsign.read.bind fun sign hs => hright.map fun b hb => ?_
      exact weaves_of_unsigned (woven_operation ha hs hb) (fun e => Iff.rfl) rfl
        (hround.unsigned_of_prefix (by simp))
  | unaryOp => cases hwoven
  | lambda params body =>
    have hstart : Guard "((" := by decide
    have harrow : Guard ") => (" := by decide
    have hend : Guard "))" := by decide
    have hparams := Plain.weaves_params q hclean.names
    have hbody := (Plain.ensures_part q body).read
    refine (hparams.bind fun p hp => hbody.map fun t ht => ?_).inScope _
    have hwoven := (Woven.append (Woven.before hstart hp) harrow ht).after hend
    exact weaves_of_unsigned hwoven (fun e => Iff.rfl) rfl
      (hstart.unsigned_of_prefix (by simp))
  | ifExp test body orelse =>
    have hstart : Guard "((" := by decide
    have hthen : Guard ") ? (" := by decide
    have helse : Guard ") : (" := by decide
    have hend : Guard "))" := by decide
    have htest := (Plain.ensures_part q test).read
    have hbody := (Plain.ensures_part q body).read
    have horelse := (Plain.ensures_part q orelse).read
    refine htest.bind fun t ht => hbody.bind fun b hb => horelse.map fun e he => ?_
    have hwoven := (((Woven.before hstart ht).append hthen hb).append helse he).after hend
    exact weaves_of_unsigned hwoven (fun e => Iff.rfl) rfl
      (hstart.unsigned_of_prefix (by simp))
  | dict keys values =>
    have hcurly : Guard "\x7b" := by decide
    have hcurly' : Guard "\x7d" := by decide
    simp only [ExprForm.map, ExprForm.direct, List.zip_map, List.map_map]
    refine (Plain.ensures_each fun entry _ => Plain.weaves_entry q entry.1 entry.2).map
      fun texts htexts => ?_
    have hwoven := (Woven.before hcurly (Woven.intercalate hcomma htexts)).after hcurly'
    refine weaves_of_unsigned hwoven (fun e => ?_) rfl ?_
    · simp [ExprForm.reached, or_comm]
    · exact hcurly.unsigned_of_prefix (by simp)
  | compare left ops comparators =>
    have hleft := (Plain.ensures_written left).read
    have hothers := Plain.ensures_each fun e (_ : e ∈ comparators) => Plain.ensures_written e
    simp only [ExprForm.map, ExprForm.direct]
    split
    · exact Plain.ensures_fail _
    · rename_i hshape
      simp only [Bool.or_eq_true, List.isEmpty_iff, List.length_map, bne_iff_ne, not_or,
        not_not] at hshape
      refine hleft.bind fun l hl => hothers.bind fun others hothers => ?_
      have hpairs : (given (comparisons (l :: others) ops) : Plain (List String)).Ensures
          fun pairs => comparisons (l :: others) ops = .ok pairs :=
        Plain.ensures_given fun pairs hpairs => hpairs
      refine hpairs.map fun pairs hpairs => ?_
      have hlength : (left :: comparators).length = ops.length + 1 := by simp [hshape.2]
      obtain ⟨groups, hgroups, hmem⟩ :=
        woven_comparisons (.cons hl hothers) hlength hshape.1 hpairs
      obtain ⟨hwoven, hunsigned⟩ := woven_conjunction hgroups
      exact weaves_of_unsigned hwoven hmem rfl hunsigned
  | call func args keywords =>
    have hfunc := (Plain.ensures_written func).read
    have hargs := (Plain.ensures_parts q args hcomma).read
    cases keywords with
    | cons keyword rest => exact (Plain.ensures_fail _).around _
    | nil =>
      refine hfunc.bind fun f hf => hargs.map fun a ha => ?_
      have hwoven := ((Woven.part hf).append hround ha).after hround'
      refine weaves_of_leader hwoven (fun e => ?_) rfl hf hround ⟨a ++ ")", ?_⟩
      · simp [ExprForm.reached, ExprForm.children]
      · simp only [String.append_assoc]
  | constant => cases hwoven
  | «attribute» value attr =>
    have hpoint : Guard "." := by decide
    have hattr : Plainly attr := hclean.names attr List.mem_cons_self
    have hvalue := (Plain.ensures_written value).read
    have hname : (pure attr : Plain String).Ensures fun t => t = attr := Plain.ensures_pure rfl
    refine hvalue.bind fun v hv => hname.read.map fun a ha => ?_
    subst ha
    exact weaves_of_leader ((Woven.part hv).append hpoint (.plain hattr)) (fun e => Iff.rfl) rfl hv
      hpoint ⟨a, rfl⟩
  | subscript value index =>
    have hsquare : Guard "[" := by decide
    have hsquare' : Guard "]" := by decide
    have hvalue := (Plain.ensures_written value).read
    have hindex := (Plain.ensures_part q index).read
    refine hvalue.bind fun v hv => hindex.map fun i hi => ?_
    have hwoven := ((Woven.part hv).append hsquare hi).after hsquare'
    refine weaves_of_leader hwoven (fun e => Iff.rfl) rfl hv hsquare ⟨i ++ "]", ?_⟩
    simp only [String.append_assoc]
  | name id =>
    have hid : Plainly id := hclean.names id List.mem_cons_self
    exact (Plain.ensures_pure
      (weaves_of_unsigned (.plain hid) (fun e => Iff.rfl) rfl hid.unsigned)).read
  | list elts =>
    have hsquare : Guard "[" := by decide
    have hsquare' : Guard "]" := by decide
    refine (Plain.ensures_parts q elts hcomma).read.map fun t ht => ?_
    exact weaves_of_unsigned ((Woven.before hsquare ht).after hsquare') (fun e => Iff.rfl) rfl
      (hsquare.unsigned_of_prefix (by simp))
  | starred value =>
    have hpoints : Guard "..." := by decide
    refine (Plain.ensures_part q value).read.map fun t ht => ?_
    exact weaves_of_unsigned (Woven.before hpoints ht) (fun e => Iff.rfl) rfl
      (hpoints.unsigned_of_prefix (by simp))
  | _ => exact Plain.ensures_fail _

theorem Expr.WrittenAs.of_ensures {e : Expr} {t : String} {P : String → Prop} (h : e.WrittenAs t)
    (hensures : (e.direct : Plain String).Ensures P) : P t :=
  hensures .new t ((Plain.run_direct e .new).trans h)

section Forms

variable {l : Loc} {t : String}

theorem Expr.WrittenAs.constant {value : Constant} (h : WrittenAs ⟨l, .constant value⟩ t) :
    t = value.spelling := by
  apply h.of_ensures
  rw [Expr.direct_mk]
  exact Plain.Ensures.around l (Plain.ensures_pure rfl)

theorem Expr.WrittenAs.unaryOp {op : UnaryOperator} {operand : Expr}
    (h : WrittenAs ⟨l, .unaryOp op operand⟩ t) :
    ∃ u, operand.WrittenAs u ∧ t = "(" ++ op.spelling ++ u ++ ")" := by
  apply h.of_ensures
  rw [Expr.direct_mk]
  have hop : (pure op.spelling : Plain String).Ensures fun sign => sign = op.spelling :=
    Plain.ensures_pure rfl
  refine Plain.Ensures.around l (hop.read.bind fun sign hsign => ?_)
  exact (Plain.ensures_written operand).read.map fun u hu => ⟨u, hu, by rw [hsign]⟩

theorem Expr.WrittenAs.weaves {form : ExprForm Expr} (h : WrittenAs ⟨l, form⟩ t)
    (hclean : form.Clean q) (hwoven : form.isWoven = true) : form.Weaves q t := by
  apply h.of_ensures
  rw [Expr.direct_mk]
  exact (ExprForm.plain_weaves hclean hwoven).around l

/-- An expression is written as a constant, as an operator before its operand, or woven. -/
theorem Expr.WrittenAs.cases {form : ExprForm Expr} (h : WrittenAs ⟨l, form⟩ t)
    (hclean : form.Clean q) :
    (∃ value, form = .constant value ∧ t = value.spelling) ∨
    (∃ op operand u, form = .unaryOp op operand ∧ operand.WrittenAs u ∧
      t = "(" ++ op.spelling ++ u ++ ")") ∨
    form.isWoven = true ∧ form.Weaves q t := by
  by_cases hwoven : form.isWoven = true
  · exact Or.inr (Or.inr ⟨hwoven, h.weaves hclean hwoven⟩)
  · cases form with
    | constant value => exact Or.inl ⟨value, rfl, h.constant⟩
    | unaryOp op operand =>
      obtain ⟨u, hu, ht⟩ := h.unaryOp
      exact Or.inr (Or.inl ⟨op, operand, u, rfl, hu, ht⟩)
    | _ => exact absurd rfl hwoven

theorem Expr.WrittenAs.pow {left right : Expr} (h : WrittenAs ⟨l, .binOp left .pow right⟩ t) :
    ∃ base exponent, left.WrittenAs base ∧ right.WrittenAs exponent ∧
      t = "(" ++ base ++ " ** " ++ exponent ++ ")" := by
  apply h.of_ensures
  rw [Expr.direct_mk]
  refine Plain.Ensures.around l ?_
  simp only [ExprForm.map]
  rw [Simulation.direct_binOp (by decide)]
  have hsign : (given (BinaryOperator.spell .pow) : Plain String).Ensures fun sign => sign = "**" :=
    Plain.ensures_pure rfl
  refine (Plain.ensures_written left).read.bind fun a ha => hsign.read.bind fun sign hsign =>
    (Plain.ensures_written right).read.map fun b hb => ⟨a, b, ha, hb, ?_⟩
  have hblanks : " ** " = " " ++ "**" ++ " " := rfl
  rw [hsign, hblanks]
  simp only [String.append_assoc]

end Forms

/-! ### Whole trees -/

/-- What is said about signs in the text of an expression. -/
structure Expr.Signed (q : Quoting) (e : Expr) (t : String) : Prop where
  unquoted : Unquoted q t.toList
  plus : t.toList.head? ≠ some '+'
  minus : t.toList.head? = some '-' ↔ e.ledByMinus = true
  no_increment : ¬Doubles q '+' t.toList
  decrement : Doubles q '-' t.toList ↔ e.Fuses

section Signed

variable {l : Loc} {t : String}

theorem Expr.signed_constant {value : Constant}
    (hclean : (ExprForm.constant value : ExprForm Expr).Clean q) :
    Signed q ⟨l, .constant value⟩ value.spelling := by
  have hsigns : Signs q value.isNegative value.spelling := by
    apply value.signs_spelling
    rintro s rfl
    exact hclean.strings s List.mem_cons_self
  obtain ⟨hunquoted, hstill⟩ := hsigns.still
  refine ⟨hunquoted, hsigns.head_plus, ?_, hstill '+' (Or.inl rfl), ?_⟩
  · rw [hsigns.head_minus, ledByMinus_mk]
    rfl
  · refine iff_of_false (hstill '-' (Or.inr rfl)) ?_
    rw [fuses_mk]
    rintro (⟨operand, ⟨⟩, -⟩ | ⟨c, ⟨⟩, -⟩)

theorem Expr.signed_unaryOp {op : UnaryOperator} {operand : Expr} (h : operand.Signed q t) :
    Signed q ⟨l, .unaryOp op operand⟩ ("(" ++ op.spelling ++ t ++ ")") := by
  have hopening : Guard "(" := by decide
  have hunsigned : Unsigned ("(" ++ op.spelling ++ t ++ ")") :=
    hopening.unsigned_of_prefix (by simp)
  have hminus : op.spelling.toList = ['-'] ↔ op = .minus := by
    cases op <;> decide
  refine ⟨unquoted_unaryOp op h.unquoted, hunsigned '+' (Or.inl rfl), ?_, ?_, ?_⟩
  · refine iff_of_false (hunsigned '-' (Or.inr rfl)) ?_
    rw [ledByMinus_mk]
    exact Bool.false_ne_true
  · rw [doubles_unaryOp op h.unquoted (Or.inl rfl)]
    simp [h.plus, h.no_increment]
  · rw [doubles_unaryOp op h.unquoted (Or.inr rfl), hminus, h.minus, h.decrement, fuses_mk]
    simp [ExprForm.reached, ExprForm.children]

theorem ExprForm.leader_reached {form : ExprForm Expr} {c : Expr} (hc : c ∈ form.leader?) :
    c ∈ form.reached := by
  cases form <;> cases hc <;> exact List.mem_cons_self

theorem Expr.ledByMinus_iff_leader {form : ExprForm Expr} (hwoven : form.isWoven = true) :
    Expr.ledByMinus ⟨l, form⟩ = true ↔ ∃ c ∈ form.leader?, c.ledByMinus = true := by
  rw [ledByMinus_mk]
  cases form with
  | constant => cases hwoven
  | _ => simp [ExprForm.map, ExprForm.ledByMinus, ExprForm.leader?]

theorem Expr.signed_woven {form : ExprForm Expr} (hform : form.isWoven = true) (h : form.Weaves q t)
    (ih : ∀ c ∈ form.reached, ∀ u, c.WrittenAs u → c.Signed q u) : Signed q ⟨l, form⟩ t := by
  obtain ⟨es, hwoven, hes⟩ := h.parts
  have hparts : ∀ c ∈ es, ∀ u, c.WrittenAs u → c.Signed q u := fun c hc => ih c ((hes c).mp hc)
  have hunquoted : ∀ c ∈ es, ∀ u, c.WrittenAs u → Unquoted q u.toList := fun c hc u hu =>
    (hparts c hc u hu).unquoted
  have hnegation : ∀ operand, form ≠ .unaryOp .minus operand := by
    rintro operand rfl
    cases hform
  refine ⟨hwoven.unquoted hunquoted, ?_, ?_, ?_, ?_⟩
  · rw [Ne, h.head '+' (Or.inl rfl)]
    rintro ⟨c, hc, u, hu, hhead⟩
    exact (ih c (ExprForm.leader_reached hc) u hu).plus hhead
  · rw [h.head '-' (Or.inr rfl), ledByMinus_iff_leader hform]
    constructor
    · rintro ⟨c, hc, u, hu, hhead⟩
      exact ⟨c, hc, (ih c (ExprForm.leader_reached hc) u hu).minus.mp hhead⟩
    · rintro ⟨c, hc, hled⟩
      have hreached := ExprForm.leader_reached hc
      obtain ⟨u, hu, -⟩ := hwoven.exists_infix c ((hes c).mpr hreached)
      exact ⟨c, hc, u, hu, (ih c hreached u hu).minus.mpr hled⟩
  · rw [hwoven.doubles_iff (Or.inl rfl) (P := fun _ => False) hunquoted fun c hc u hu =>
      iff_of_false (hparts c hc u hu).no_increment id]
    simp
  · rw [hwoven.doubles_iff (Or.inr rfl) hunquoted fun c hc u hu => (hparts c hc u hu).decrement,
      fuses_mk]
    simp only [hes, hnegation, false_and, exists_false, false_or]

end Signed

theorem Expr.signed_of_writtenAs {e : Expr} (hclean : e.Clean q) {t : String} (h : e.WrittenAs t) :
    e.Signed q t := by
  induction e generalizing t with
  | mk l form ih =>
    obtain ⟨hform, hreached⟩ := Expr.clean_mk.mp hclean
    have hchildren : ∀ c ∈ form.reached, ∀ u, c.WrittenAs u → c.Signed q u := fun c hc u hu =>
      ih c (ExprForm.mem_children_of_reached hc) (hreached c hc) hu
    rcases h.cases hform with ⟨value, rfl, rfl⟩ | ⟨op, operand, u, rfl, hu, rfl⟩ | ⟨hwoven, hweaves⟩
    · exact signed_constant hform
    · exact signed_unaryOp (hchildren operand List.mem_cons_self u hu)
    · exact signed_woven hwoven hweaves hchildren

/-- The text of what is rendered in an expression stands in its text. -/
theorem Expr.Reached.exists_infix {d e : Expr} (hreached : d.Reached e) (hclean : e.Clean q)
    {t : String} (h : e.WrittenAs t) : ∃ u, d.WrittenAs u ∧ u.toList <:+: t.toList := by
  induction hreached generalizing t with
  | here => exact ⟨t, h, List.infix_rfl⟩
  | @child c e hc _ ih =>
    obtain ⟨l, form⟩ := e
    obtain ⟨hform, hchildren⟩ := Expr.clean_mk.mp hclean
    have hchild : ∃ u, c.WrittenAs u ∧ u.toList <:+: t.toList := by
      rcases h.cases hform with ⟨value, rfl, -⟩ | ⟨op, operand, u, rfl, hu, rfl⟩ | ⟨-, hweaves⟩
      · cases hc
      · obtain rfl : c = operand := List.mem_singleton.mp hc
        refine ⟨u, hu, ?_⟩
        rw [String.toList_append, String.toList_append]
        exact List.infix_append _ _ _
      · obtain ⟨es, hwoven, hes⟩ := hweaves.parts
        exact hwoven.exists_infix c ((hes c).mpr hc)
    obtain ⟨u, hu, hin⟩ := hchild
    obtain ⟨v, hv, hin'⟩ := ih (hchildren c hc) hu
    exact ⟨v, hv, hin'.trans hin⟩

/-- **Signs meet only between a minus and a negative constant.**  The text of a supported expression
    whose names have no signs in them never has two plus signs in a row outside of strings, and two
    minus signs exactly if somewhere a minus is put before an operand that is led by a negative
    constant.  The base of a power never begins with a plus sign, and with a minus sign exactly
    if it is led by a negative constant.  This holds for a reader of scripts, and for one who takes
    strings as they are. -/
theorem renderExpr_signs (q : Quoting) {κ : Type} [DecidableEq κ] (keyOf : Place → κ)
    (r : Renderer κ) (e : Expr) (hkeys : Set.InjOn keyOf (e.nodes []))
    (hsupported : e.supported = true) (hclean : e.Clean q) :
    ∃ text, (Renderer.renderExpr keyOf e r).result = .ok text ∧
      ¬Doubles q '+' text.toList ∧
      (Doubles q '-' text.toList ↔ e.Fuses) ∧
      ∀ l left right, Expr.Reached ⟨l, .binOp left .pow right⟩ e →
        ∃ base exponent, left.text = .ok base ∧ right.text = .ok exponent ∧
          ("(" ++ base ++ " ** " ++ exponent ++ ")").toList <:+: text.toList ∧
          base.toList.head? ≠ some '+' ∧
          (base.toList.head? = some '-' ↔ left.ledByMinus = true) := by
  obtain ⟨text, htext⟩ := (renderExpr_ok_iff keyOf hkeys r).mpr hsupported
  have hwritten : e.WrittenAs text := by
    rw [Expr.WrittenAs, Expr.text_eq_draft, ← renderExpr_result keyOf hkeys r, htext]
  have hsigned := Expr.signed_of_writtenAs hclean hwritten
  refine ⟨text, htext, hsigned.no_increment, hsigned.decrement, fun l left right hreached => ?_⟩
  obtain ⟨power, hpower, hin⟩ := hreached.exists_infix hclean hwritten
  obtain ⟨base, exponent, hbase, hexponent, rfl⟩ := hpower.pow
  have hleft : left.Clean q :=
    (Expr.clean_mk.mp (hclean.of_reached hreached)).2 left List.mem_cons_self
  have hsign := Expr.signed_of_writtenAs hleft hbase
  exact ⟨base, exponent, hbase, hexponent, hin, hsign.plus, hsign.minus⟩

/-- `(-(-1).x) ** "--"` -/
def fusedBase : Expr :=
  ⟨.synthetic, .binOp
    ⟨.synthetic, .unaryOp .minus
      ⟨.synthetic, .attribute ⟨.synthetic, .constant (.int (-1))⟩ "x"⟩⟩
    .pow ⟨.synthetic, .constant (.str "--")⟩⟩

theorem clean_fusedBase : fusedBase.Clean .script := by
  simp only [fusedBase, Expr.clean_mk, ExprForm.reached, ExprForm.children, List.forall_mem_cons,
    List.not_mem_nil, false_imp_iff, implies_true, and_true]
  decide

theorem renderExpr_signs_fusedBase :
    Set.InjOn id (fusedBase.nodes []) ∧ fusedBase.supported = true ∧ fusedBase.Clean .script ∧
    (Renderer.renderExpr id fusedBase Renderer.new).result = .ok "((--1.x) ** \"--\")" ∧
    ¬Doubles .script '+' "((--1.x) ** \"--\")".toList ∧
    Doubles .script '-' "((--1.x) ** \"--\")".toList ∧ fusedBase.Fuses := by
  have hkeys : Set.InjOn id (fusedBase.nodes []) := Set.injOn_id _
  have hsupported : fusedBase.supported = true := rfl
  have htext : (Renderer.renderExpr id fusedBase Renderer.new).result =
      .ok "((--1.x) ** \"--\")" := rfl
  obtain ⟨text, hresult, hplus, hminus, -⟩ :=
    renderExpr_signs .script id Renderer.new fusedBase hkeys hsupported clean_fusedBase
  obtain rfl : "((--1.x) ** \"--\")" = text := Except.ok.inj (htext.symm.trans hresult)
  have hdoubles : Doubles .script '-' "((--1.x) ** \"--\")".toList :=
    ⟨['(', '('], "1.x) ** \"--\")".toList, rfl, rfl⟩
  exact ⟨hkeys, hsupported, clean_fusedBase, htext, hplus, hdoubles, hminus.mp hdoubles⟩

/-- `-(-1)` -/
def minusOfNegative : Expr :=
  ⟨.synthetic, .unaryOp .minus ⟨.synthetic, .constant (.int (-1))⟩⟩

/-- `(-2) ** 2` -/
def powerOfNegative : Expr :=
  ⟨.synthetic, .binOp ⟨.synthetic, .constant (.int (-2))⟩ .pow ⟨.synthetic, .constant (.int 2)⟩⟩

/-- The minus of a minus one is a decrement, and a negative base stands before the power without
    brackets.  So it is not true that operators never fuse with signed operands. -/
theorem operators_fuse_with_negatives :
    (Renderer.renderExpr id minusOfNegative Renderer.new).result = .ok "(--1)" ∧
    (Renderer.renderExpr id powerOfNegative Renderer.new).result = .ok "(-2 ** 2)" ∧
    (∀ q, ¬∀ e : Expr, e.supported = true → e.Clean q → ∀ text,
      (Renderer.renderExpr id e Renderer.new).result = .ok text → ¬Doubles q '-' text.toList) ∧
    ∀ q, ¬∀ (l : Loc) (left right : Expr), (⟨l, .binOp left .pow right⟩ : Expr).supported = true →
      (⟨l, .binOp left .pow right⟩ : Expr).Clean q → ∀ base, left.text = .ok base →
        base.toList.head? ≠ some '-' := by
  have hminus : (Renderer.renderExpr id minusOfNegative Renderer.new).result = .ok "(--1)" := rfl
  have hpower : (Renderer.renderExpr id powerOfNegative Renderer.new).result = .ok "(-2 ** 2)" := rfl
  refine ⟨hminus, hpower, fun q hall => ?_, fun q hall => ?_⟩
  · have hclean : minusOfNegative.Clean q := by
      simp only [minusOfNegative, Expr.clean_mk, ExprForm.reached, ExprForm.children,
        List.forall_mem_cons, List.not_mem_nil, false_imp_iff, implies_true, and_true]
      cases q <;> decide
    exact hall minusOfNegative rfl hclean _ hminus ⟨['('], ['1', ')'], rfl, rfl⟩
  · have hclean : powerOfNegative.Clean q := by
      simp only [powerOfNegative, Expr.clean_mk, ExprForm.reached, ExprForm.children,
        List.forall_mem_cons, List.not_mem_nil, false_imp_iff, implies_true, and_true]
      cases q <;> decide
    exact hall _ _ _ rfl hclean "-2" rfl rfl

end ScriptTree
