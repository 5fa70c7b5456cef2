/-
  ScriptTree/Proofs/UniqueReading.lean
  ====================================
  **What is rendered can be read in one way only.**  Two readable expressions have the same text exactly
  if they are the same tree, up to locations and to the two names of each equality
  (`renderExpr_same_text_iff`).

  The induction goes over one of the two trees.  Equal texts have equal layers, and equal layers come
  of the same form with the same texts for its children (`Readable.bare_of_layer`).  That the text of
  a layer is what the renderer writes is a matter of carrying out the rules (`Readable.written`).
-/
import ScriptTree.Proofs.LayerReading
import ScriptTree.Proofs.Refusals

namespace ScriptTree

open Rendition

/-! ### Trees without locations -/

/-- An expression without locations and with one name for each comparison. -/
def Expr.bare : Expr → Expr := Expr.fold fun _ form => ⟨.synthetic, form.bare⟩

section Forms

variable {ε φ ψ : Type}

theorem ExprForm.map_map (g : φ → ψ) (f : ε → φ) (form : ExprForm ε) :
    (form.map f).map g = form.map (g ∘ f) := by
  cases form <;> simp [map, Params.map, Keyword.map, Comprehension.map, Function.comp_def]

theorem ExprForm.map_congr {f g : ε → φ} {form : ExprForm ε} (h : ∀ c ∈ form.children, f c = g c) :
    form.map f = form.map g := by
  have hoption : ∀ o : Option ε, (∀ c ∈ o.toList, f c = g c) → o.map f = o.map g := by
    intro o ho
    cases o with
    | none => rfl
    | some c => exact congrArg some (ho c List.mem_cons_self)
  have hgenerators : ∀ gs : List (Comprehension ε),
      (∀ c ∈ gs.flatMap Comprehension.children, f c = g c) →
      gs.map (Comprehension.map f) = gs.map (Comprehension.map g) := by
    intro gs hgs
    refine List.map_congr_left fun x hx => ?_
    have hchildren : ∀ c ∈ x.children, f c = g c := fun c hc => hgs c (List.mem_flatMap.mpr ⟨x, hx, hc⟩)
    simp_all [Comprehension.map, Comprehension.children]
  cases form with
  | dict keys values =>
    simp only [children, List.forall_mem_append] at h
    have hkeys : keys.map (Option.map f) = keys.map (Option.map g) :=
      List.map_congr_left fun o ho => hoption o fun c hc => h.1 c (List.mem_flatMap.mpr ⟨o, ho, hc⟩)
    rw [map, map, hkeys, List.map_congr_left h.2]
  | call func args keywords =>
    simp only [children, List.cons_append, List.forall_mem_cons, List.forall_mem_append,
      List.forall_mem_map] at h
    have hkeywords : keywords.map (Keyword.map f) = keywords.map (Keyword.map g) :=
      List.map_congr_left fun k hk => by rw [Keyword.map, Keyword.map, h.2.2 k hk]
    rw [map, map, h.1, List.map_congr_left h.2.1, hkeywords]
  | listComp elt gs =>
    rw [children, List.forall_mem_cons] at h
    rw [map, map, h.1, hgenerators gs h.2]
  | dictComp key value gs =>
    rw [children, List.forall_mem_cons, List.forall_mem_cons] at h
    rw [map, map, h.1, h.2.1, hgenerators gs h.2.2]
  | generatorExp elt gs =>
    rw [children, List.forall_mem_cons] at h
    rw [map, map, h.1, hgenerators gs h.2]
  | yield value => rw [map, map, hoption value h]
  | slice lower upper step =>
    simp only [children, List.forall_mem_append] at h
    rw [map, map, hoption lower h.1.1, hoption upper h.1.2, hoption step h.2]
  | _ => simp_all [map, children, Params.map]

theorem ExprForm.bare_map (f : ε → φ) (form : ExprForm ε) : form.bare.map f = (form.map f).bare := by
  cases form <;>
    simp [map, bare, Params.map, Params.bare, Keyword.map, Keyword.bare, Comprehension.map,
      Comprehension.bare, Function.comp_def]

theorem ExprForm.children_bare (form : ExprForm ε) : form.bare.children = form.children := by
  have hgenerators : ∀ gs : List (Comprehension ε),
      (gs.map Comprehension.bare).flatMap Comprehension.children =
        gs.flatMap Comprehension.children := by
    intro gs
    rw [List.flatMap_map]
    rfl
  cases form <;> simp [children, bare, Params.bare, Keyword.bare, hgenerators, Function.comp_def]

/-- If the children have equal images under one function only where they have equal images under
    another, then forms with equal images under the one have equal images under the other. -/
theorem ExprForm.map_eq_of_map_eq [Nonempty ψ] {f : ε → φ} {g : ε → ψ} {x y : ExprForm ε}
    (h : x.map f = y.map f) (hfg : ∀ a ∈ x.children, ∀ b ∈ y.children, f a = f b → g a = g b) :
    x.map g = y.map g := by
  classical
  have hchildren : x.children.map f = y.children.map f := by
    rw [← children_map, h, children_map]
  -- the second image of a child, from its first image
  let k : φ → ψ := fun t => if ht : ∃ a ∈ x.children, f a = t then g ht.choose else Classical.ofNonempty
  have hky : ∀ b ∈ y.children, k (f b) = g b := by
    intro b hb
    have hexists : ∃ a ∈ x.children, f a = f b :=
      List.mem_map.mp (hchildren ▸ List.mem_map_of_mem hb)
    simp only [k, dif_pos hexists]
    exact hfg _ hexists.choose_spec.1 b hb hexists.choose_spec.2
  have hkx : ∀ a ∈ x.children, k (f a) = g a := by
    intro a ha
    obtain ⟨b, hb, hab⟩ := List.mem_map.mp (hchildren ▸ List.mem_map_of_mem ha)
    rw [← hab, hky b hb, hfg a ha b hb hab.symm]
  calc x.map g = x.map (k ∘ f) := map_congr fun a ha => (hkx a ha).symm
    _ = y.map (k ∘ f) := by rw [← map_map, h, map_map]
    _ = y.map g := map_congr hky

end Forms

theorem Expr.bare_mk (l : Loc) (form : ExprForm Expr) :
    Expr.bare ⟨l, form⟩ = ⟨.synthetic, form.bare.map Expr.bare⟩ := by
  rw [ExprForm.bare_map]
  exact Expr.fold_mk _ l form

instance : Nonempty Expr := ⟨⟨.synthetic, .constant .null⟩⟩

theorem Expr.Readable.child {e : Expr} {p : Standing} (h : e.Readable p) {c : Expr}
    (hc : c ∈ e.form.children) : ∃ q, c.Readable q := by
  cases h with
  | name | constant => cases hc
  | «attribute» hvalue => exact ⟨.alone, List.mem_singleton.mp hc ▸ hvalue⟩
  | unaryOp hoperand => exact ⟨.alone, List.mem_singleton.mp hc ▸ hoperand⟩
  | starred hvalue => exact ⟨.alone, List.mem_singleton.mp hc ▸ hvalue⟩
  | boolOp _ hvalues => exact ⟨.alone, hvalues c hc⟩
  | list helts => exact ⟨.element, helts c hc⟩
  | dict _ hkeys hvalues =>
    rcases List.mem_append.mp hc with hc | hc
    · exact ⟨.alone, hkeys c (by simpa using hc)⟩
    · exact ⟨.alone, hvalues c hc⟩
  | lambda _ _ hdefaults hbody =>
    rcases List.mem_append.mp hc with hc | hc
    · exact ⟨.alone, hdefaults c hc⟩
    · exact ⟨.alone, List.mem_singleton.mp hc ▸ hbody⟩
  | subscript hvalue hindex =>
    rcases List.mem_pair.mp hc with rfl | rfl
    · exact ⟨.alone, hvalue⟩
    · exact ⟨.alone, hindex⟩
  | binOp _ hleft hright =>
    rcases List.mem_pair.mp hc with rfl | rfl
    · exact ⟨.alone, hleft⟩
    · exact ⟨.alone, hright⟩
  | ifExp htest hbody horelse =>
    rcases List.mem_cons.mp hc with rfl | hc
    · exact ⟨.alone, htest⟩
    · rcases List.mem_pair.mp hc with rfl | rfl
      · exact ⟨.alone, hbody⟩
      · exact ⟨.alone, horelse⟩
  | call hfunc hargs =>
    rcases List.mem_cons.mp hc with rfl | hc
    · exact ⟨.alone, hfunc⟩
    · exact ⟨.element, hargs c (by simpa using hc)⟩
  | compare _ _ hleft hothers =>
    rcases List.mem_cons.mp hc with rfl | hc
    · exact ⟨.alone, hleft⟩
    · exact ⟨.alone, hothers c hc⟩

/-- **Equal texts come of the same tree**, up to locations. -/
theorem Expr.Readable.bare_of_chars {e e' : Expr} {p q : Standing} (h : e.Readable p)
    (h' : e'.Readable q) (hchars : e.chars = e'.chars) : e.bare = e'.bare := by
  induction e generalizing p q e' with
  | mk l form ih =>
    obtain ⟨l', form'⟩ := e'
    have hlayer := Layer.text_injective h.good_layer h'.good_layer (by rw [← chars_eq, hchars, chars_eq])
    have hforms := h.bare_of_layer h' hlayer
    rw [← ExprForm.bare_map, ← ExprForm.bare_map] at hforms
    rw [bare_mk, bare_mk]
    congr 1
    refine ExprForm.map_eq_of_map_eq hforms fun a ha b hb hab => ?_
    rw [ExprForm.children_bare] at ha hb
    obtain ⟨p', ha'⟩ := h.child ha
    obtain ⟨q', hb'⟩ := h'.child hb
    exact ih a ha ha' hb' hab

/-! ### The other way around -/

theorem CmpOperator.chars_bare (op : CmpOperator) : op.bare.chars = op.chars := by
  cases op <;> rfl

theorem Params.formals_bare (params : Params (List Char)) : params.bare.formals = params.formals := by
  have hformal : ∀ i param, params.bare.formal i (Param.bare param) = params.formal i param := by
    intro i param
    simp [formal, bare, Param.bare, defaultIndex?, positional]
  have hpositional : params.bare.positional = params.positional.map Param.bare := by
    simp [bare, positional]
  have hargs : params.bare.positional.mapIdx params.bare.formal =
      params.positional.mapIdx params.formal := by
    rw [hpositional]
    apply List.ext_getElem
    · simp
    · intro i _ _
      simp [hformal]
  rw [formals, formals, hargs, bare]
  cases params.rest <;> rfl

theorem ExprForm.layer_bare (form : ExprForm (List Char)) : form.bare.layer = form.layer := by
  cases form <;> simp [bare, layer, Params.formals_bare, CmpOperator.chars_bare, Function.comp_def]

theorem Expr.chars_bare (e : Expr) : e.bare.chars = e.chars := by
  induction e with
  | mk l form ih =>
    have hchildren : form.map (Expr.chars ∘ Expr.bare) = form.map Expr.chars :=
      ExprForm.map_congr ih
    rw [bare_mk, chars_eq, chars_eq, ExprForm.map_map, ExprForm.bare_map, hchildren,
      ExprForm.layer_bare]

theorem CmpOperator.supported_bare (op : CmpOperator) : op.bare.supported = op.supported := by
  cases op <;> rfl

theorem ExprForm.supported_bare (form : ExprForm Bool) : form.bare.supported = form.supported := by
  cases form with
  | lambda params body => simp [bare, supported, Params.bare, Params.supported, Params.positional]
  | _ => simp [bare, supported, CmpOperator.supported_bare, Function.comp_def]

theorem Expr.supported_bare (e : Expr) : e.bare.supported = e.supported := by
  induction e with
  | mk l form ih =>
    have hchildren : form.map (Expr.supported ∘ Expr.bare) = form.map Expr.supported :=
      ExprForm.map_congr ih
    rw [bare_mk, supported_mk, supported_mk, ExprForm.map_map, ExprForm.bare_map, hchildren,
      ExprForm.supported_bare]

/-! ### What the renderer writes -/

namespace Draft

variable {α β : Type}

def Gives (d : Draft α) (a : α) : Prop := d.result = .ok a

theorem gives_pure (a : α) : (pure a : Draft α).Gives a := rfl

theorem gives_text {s : String} {cs : List Char} (h : s.toList = cs) :
    (pure s : Draft String).Gives (String.ofList cs) := by
  rw [← h, String.ofList_toList]
  exact gives_pure s

theorem Gives.bind {d : Draft α} {f : α → Draft β} {a : α} {b : β} (hd : d.Gives a)
    (hf : (f a).Gives b) : (d >>= f).Gives b := by
  rw [Gives, bind_of_ok hd]
  exact hf

theorem Gives.read {d : Draft String} {a : String} (h : d.Gives a) : (read d).Gives a :=
  (andThen_result d _).trans h

theorem Gives.around {d : Draft α} {a : α} (h : d.Gives a) (l : Loc) :
    (Rendition.around l d).Gives a := by
  show d.result.mapError _ = _
  rw [h]
  rfl

theorem Gives.inScope {d : Draft α} {a : α} (h : d.Gives a) (names : List String) :
    (Rendition.inScope names d).Gives a := h

theorem gives_all {ι : Type} {f : ι → Draft α} {g : ι → α} {xs : List ι}
    (h : ∀ x ∈ xs, (f x).Gives (g x)) : (all (xs.map f)).Gives (xs.map g) := by
  induction xs with
  | nil => exact gives_pure _
  | cons x xs ih =>
    rw [List.forall_mem_cons] at h
    exact h.1.bind ((ih h.2).bind (gives_pure _))

end Draft

/-- The renderer writes the text of the layers. -/
def Expr.Written (e : Expr) : Prop := (e.direct : Draft String).Gives (String.ofList e.chars)

namespace Draft

theorem gives_joined {es : List Expr} (h : ∀ e ∈ es, e.Written) :
    (joined ", " (es.map Expr.direct) : Draft String).Gives
      (String.ofList ([',', ' '].intercalate (es.map Expr.chars))) := by
  refine (gives_all h).bind (gives_text ?_)
  simp [String.toList_intercalate, Function.comp_def]

theorem gives_sign {op : BinaryOperator} (hop : op ≠ .matMult) (hfloor : op ≠ .floorDiv) :
    (given op.spell : Draft String).Gives (String.ofList op.chars) := by
  cases op with
  | matMult => exact absurd rfl hop
  | floorDiv => exact absurd rfl hfloor
  | _ => exact gives_pure _

theorem gives_comparison {op : CmpOperator} (hop : op ≠ .isIn) (hop' : op ≠ .notIn)
    (left right : String) :
    (given (ExprForm.comparisons [left, right] [op]) : Draft (List String)).Gives
      ["(" ++ left ++ " " ++ String.ofList op.chars ++ " " ++ right ++ ")"] := by
  cases op with
  | isIn => exact absurd rfl hop
  | notIn => exact absurd rfl hop'
  | _ => exact gives_pure _

/-- A parameter is written with its default, if it has one. -/
theorem gives_param {params : Params Expr} (h : ∀ d ∈ params.defaults, d.Written) (i : Nat)
    (param : Param) :
    ((params.map Expr.direct).directParam i param : Draft String).Gives
      (String.ofList ((params.map Expr.chars).formal i param).text) := by
  have hindex : ∀ {β : Type} (f : Expr → β),
      (params.map f).defaultIndex? i = params.defaultIndex? i := by
    intro β f
    simp [Params.defaultIndex?, Params.positional, Params.map]
  rw [Params.directParam, Params.formal, hindex, hindex]
  cases params.defaultIndex? i with
  | none => exact gives_text rfl
  | some j =>
    simp only [Params.map, List.getElem?_map, Option.bind_some]
    cases hd : params.defaults[j]? with
    | none => exact gives_text rfl
    | some d =>
      refine (h d (List.mem_of_getElem? hd)).bind (gives_text ?_)
      simp [Formal.text]

theorem gives_params (params : Params Expr) (hkwOnly : params.kwOnly = [])
    (hkwRest : params.kwRest = none) (h : ∀ d ∈ params.defaults, d.Written) :
    ((params.map Expr.direct).direct : Draft String).Gives
      (String.ofList ([',', ' '].intercalate ((params.map Expr.chars).formals.map Formal.text))) := by
  have hpositional :
      (all (params.positional.mapIdx (params.map (Expr.direct (M := Draft))).directParam)).Gives
        ((params.positional.mapIdx (params.map Expr.chars).formal).map fun x =>
          String.ofList x.text) := by
    rw [List.mapIdx_eq_zipIdx_map, List.mapIdx_eq_zipIdx_map, List.map_map]
    exact gives_all fun x _ => gives_param h x.2 x.1
  obtain ⟨l, posOnly, args, rest, kwOnly, kwRest, defaults⟩ := params
  subst hkwOnly hkwRest
  have hrest : ∀ name : String, (Formal.rest name.toList).text = ("..." ++ name).toList := by
    intro name
    simp [Formal.text]
  refine hpositional.bind (gives_text ?_)
  simp [String.toList_intercalate, Params.formals, Params.map, Params.positional, hrest,
    Function.comp_def]

theorem gives_entry {entry : Option Expr × Expr} (hkey : ∀ k ∈ entry.1, k.Written)
    (hvalue : entry.2.Written) :
    (ExprForm.directEntry (entry.map (Option.map Expr.direct) Expr.direct) : Draft String).Gives
      (String.ofList (entryText (entry.map (Option.map Expr.chars) Expr.chars))) := by
  obtain ⟨key, value⟩ := entry
  cases key with
  | none =>
    refine hvalue.bind (gives_text ?_)
    simp [entryText]
  | some key =>
    refine hvalue.bind ((hkey key rfl).bind (gives_text ?_))
    simp [entryText]

theorem gives_entries {keys : List (Option Expr)} {values : List Expr}
    (hkeys : ∀ k, some k ∈ keys → k.Written) (hvalues : ∀ v ∈ values, v.Written) :
    (all (((keys.map (Option.map Expr.direct)).zip (values.map Expr.direct)).map ExprForm.directEntry) :
      Draft (List String)).Gives
      (((keys.map (Option.map Expr.chars)).zip (values.map Expr.chars)).map fun entry =>
        String.ofList (entryText entry)) := by
  rw [List.zip_map, List.zip_map, List.map_map, List.map_map]
  refine gives_all fun entry hentry => ?_
  obtain ⟨hkey, hvalue⟩ := List.of_mem_zip hentry
  refine gives_entry (fun k hk => hkeys k ?_) (hvalues _ hvalue)
  exact hk ▸ hkey

end Draft

theorem Expr.Readable.paired {e : Expr} {p : Standing} (h : e.Readable p) : e.form.paired = true := by
  cases h with
  | dict hlength => simpa [ExprForm.paired] using hlength
  | lambda _ hlength => exact decide_eq_true hlength
  | _ => rfl

theorem intercalate_intersperse (sign : List Char) (parts : List (List Char)) :
    [' '].intercalate (parts.intersperse sign) =
      (' ' :: sign ++ [' ']).intercalate parts := by
  induction parts with
  | nil => rfl
  | cons part parts ih =>
    cases parts with
    | nil => rfl
    | cons next parts =>
      obtain ⟨y, ys, hy⟩ : ∃ y ys, (next :: parts).intersperse sign = y :: ys := by
        cases parts <;> exact ⟨_, _, rfl⟩
      rw [hy] at ih
      rw [List.intersperse_cons_cons, hy, List.intercalate_cons_cons, List.intercalate_cons_cons, ih,
        List.intercalate_cons_cons]
      simp

/-- **The text of the layers is what the renderer writes**, for what it writes at all. -/
theorem Expr.Readable.written {e : Expr} {p : Standing} (h : e.Readable p)
    (hs : e.supported = true) : e.Written := by
  induction e generalizing p with
  | mk l form ih =>
    have hform : (form.map Expr.supported).supported = true := by rw [← supported_mk l, hs]
    have hchild : ∀ {q : Standing}, ∀ c ∈ form.children, c.Readable q → c.Written := by
      intro q c hc hq
      exact ih c hc hq (ExprForm.supported_reached hform c (ExprForm.reached_of_paired h.paired c hc))
    rw [Written, direct_mk, chars_eq]
    refine Draft.Gives.around ?_ l
    cases h with
    | name hname =>
      refine Draft.Gives.read (Draft.gives_text ?_)
      simp [ExprForm.map, ExprForm.layer]
    | @constant _ _ value hvalue =>
      refine Draft.gives_text ?_
      cases value with
      | str s => simp [ExprForm.map, ExprForm.layer, Constant.stem, Constant.spelling, doubleQuoted]
      | _ => rfl
    | @«attribute» _ _ value attr hvalue hattr =>
      have hv := hchild value (by simp [ExprForm.children]) hvalue
      refine hv.read.bind ((Draft.gives_pure attr).read.bind (Draft.gives_text ?_))
      simp [ExprForm.map, ExprForm.layer]
    | @subscript _ _ value index hvalue hindex =>
      have hv := hchild value (by simp [ExprForm.children]) hvalue
      have hi := hchild index (by simp [ExprForm.children]) hindex
      refine hv.read.bind (hi.read.bind (Draft.gives_text ?_))
      simp [ExprForm.map, ExprForm.layer]
    | @call _ _ func args hfunc hargs =>
      have hf := hchild func (by simp [ExprForm.children]) hfunc
      have ha : ∀ a ∈ args, a.Written := fun a ha =>
        hchild a (by simp [ExprForm.children, ha]) (hargs a ha)
      refine hf.read.bind ((Draft.gives_joined ha).read.bind (Draft.gives_text ?_))
      simp [ExprForm.map, ExprForm.layer]
    | @binOp _ _ left right op hop hleft hright =>
      have hl := hchild left (by simp [ExprForm.children]) hleft
      have hr := hchild right (by simp [ExprForm.children]) hright
      by_cases hfloor : op = .floorDiv
      · subst hfloor
        refine hl.read.bind (hr.read.bind (Draft.gives_text ?_))
        simp [ExprForm.map, ExprForm.layer, BinaryOperator.parts_floorDiv]
      · rw [ExprForm.map, Simulation.direct_binOp hfloor]
        have hsign := Draft.gives_sign hop hfloor
        refine hl.read.bind (hsign.read.bind (hr.read.bind (Draft.gives_text ?_)))
        simp [ExprForm.map, ExprForm.layer, BinaryOperator.parts, hfloor, List.intercalate_cons_cons]
    | @unaryOp _ _ op operand hoperand =>
      have ho := hchild operand (by simp [ExprForm.children]) hoperand
      refine (Draft.gives_pure op.spelling).read.bind (ho.read.bind (Draft.gives_text ?_))
      simp [ExprForm.map, ExprForm.layer]
    | @boolOp _ _ op values hlength hvalues =>
      have hv : ∀ v ∈ values, v.Written := fun v hv => hchild v hv (hvalues v hv)
      refine (Draft.gives_all hv).bind (Draft.gives_text ?_)
      simp [ExprForm.map, ExprForm.layer, intercalate_intersperse, String.toList_intercalate,
        Function.comp_def]
    | @compare _ _ left op comparators hop hop' hleft hothers =>
      have hl := hchild left (by simp [ExprForm.children]) hleft
      obtain ⟨right, rfl⟩ : ∃ right, comparators = [right] := by
        simp only [ExprForm.map, ExprForm.supported, Bool.and_eq_true, List.length_map,
          beq_iff_eq] at hform
        exact List.length_eq_one_iff.mp hform.1.1.1.2.symm
      have hr : ∀ c ∈ [right], c.Written := fun c hc =>
        hchild c (List.mem_cons_of_mem _ hc) (hothers c hc)
      have hpair := Draft.gives_comparison hop hop' (String.ofList left.chars) (String.ofList right.chars)
      refine hl.read.bind ((Draft.gives_all hr).bind (hpair.bind (Draft.gives_text ?_)))
      simp [ExprForm.conjunction, ExprForm.map, ExprForm.layer, List.intercalate_cons_cons]
    | @ifExp _ _ test body orelse htest hbody horelse =>
      have ht := hchild test (by simp [ExprForm.children]) htest
      have hb := hchild body (by simp [ExprForm.children]) hbody
      have ho := hchild orelse (by simp [ExprForm.children]) horelse
      refine ht.read.bind (hb.read.bind (ho.read.bind (Draft.gives_text ?_)))
      simp [ExprForm.map, ExprForm.layer, wrapped_eq, List.intercalate_cons_cons]
    | @list _ _ elts helts =>
      have he : ∀ e ∈ elts, e.Written := fun e he => hchild e he (helts e he)
      refine (Draft.gives_joined he).read.bind (Draft.gives_text ?_)
      simp [ExprForm.map, ExprForm.layer]
    | @dict _ _ keys values hlength hkeys hvalues =>
      have hk : ∀ k, some k ∈ keys → k.Written := fun k hk =>
        hchild k (by simp [ExprForm.children, hk]) (hkeys k hk)
      have hv : ∀ v ∈ values, v.Written := fun v hv =>
        hchild v (List.mem_append_right _ hv) (hvalues v hv)
      refine (Draft.gives_entries hk hv).bind (Draft.gives_text ?_)
      simp [ExprForm.map, ExprForm.layer, String.toList_intercalate, Function.comp_def]
    | @lambda _ _ l args rest defaults body hnames hlength hdefaults hbody =>
      have hb := hchild body (by simp [ExprForm.children]) hbody
      have hd : ∀ d ∈ defaults, d.Written := fun d hd =>
        hchild d (List.mem_append_left _ hd) (hdefaults d hd)
      have hp := Draft.gives_params ⟨l, [], args, rest, [], none, defaults⟩ rfl rfl hd
      refine Draft.Gives.inScope (hp.bind ?_) _
      refine hb.read.bind (Draft.gives_text ?_)
      simp [ExprForm.map, ExprForm.layer, wrapped_eq, Bracket.around, Bracket.opening, Bracket.closing,
        Separator.chars, List.intercalate_cons_cons]
    | @starred _ value hvalue =>
      have hv := hchild value (by simp [ExprForm.children]) hvalue
      refine hv.read.bind (Draft.gives_text ?_)
      simp [ExprForm.map, ExprForm.layer]

/-! ### Unique reading -/

section Rendered

variable {κ : Type} [DecidableEq κ]

/-- **Unique reading.**  Two readable expressions have a text in common exactly if they have a text at
    all and are the same tree, up to locations and up to the two names of each equality. -/
theorem renderExpr_same_text_iff {e₁ e₂ : Expr} (h₁ : e₁.Readable .alone) (h₂ : e₂.Readable .alone)
    (keyOf₁ keyOf₂ : Place → κ) (hkeys₁ : Set.InjOn keyOf₁ (e₁.nodes []))
    (hkeys₂ : Set.InjOn keyOf₂ (e₂.nodes [])) (r₁ r₂ : Renderer κ) :
    (∃ text, (Renderer.renderExpr keyOf₁ e₁ r₁).result = .ok text ∧
      (Renderer.renderExpr keyOf₂ e₂ r₂).result = .ok text) ↔
    e₁.supported = true ∧ e₁.bare = e₂.bare := by
  rw [renderExpr_result keyOf₁ hkeys₁, renderExpr_result keyOf₂ hkeys₂]
  constructor
  · rintro ⟨text, htext₁, htext₂⟩
    have hs₁ := e₁.draft_succeeds_iff.mp ⟨text, htext₁⟩
    have hs₂ := e₂.draft_succeeds_iff.mp ⟨text, htext₂⟩
    rw [h₁.written hs₁] at htext₁
    rw [h₂.written hs₂, ← htext₁] at htext₂
    have hchars := String.ofList_inj.mp (Except.ok.inj htext₂)
    exact ⟨hs₁, h₁.bare_of_chars h₂ hchars.symm⟩
  · rintro ⟨hs₁, hbare⟩
    have hs₂ : e₂.supported = true := by rw [← e₂.supported_bare, ← hbare, e₁.supported_bare, hs₁]
    have hchars : e₁.chars = e₂.chars := by rw [← e₁.chars_bare, hbare, e₂.chars_bare]
    exact ⟨String.ofList e₁.chars, h₁.written hs₁, hchars ▸ h₂.written hs₂⟩

end Rendered

/-- A call with a spread list and a function in it, for any comparison and at any location. -/
def spreadCall (l : Loc) (op : CmpOperator) : Expr :=
  ⟨l, .call ⟨l, .name "f"⟩
    [⟨l, .starred ⟨l, .list [⟨l, .name "x"⟩]⟩⟩,
      ⟨l, .lambda
        ⟨l, [], [⟨l, "a"⟩, ⟨l, "b"⟩], none, [], none, [⟨l, .unaryOp .minus ⟨l, .constant (.int 1)⟩⟩]⟩
        ⟨l, .compare ⟨l, .name "a"⟩ [op] [⟨l, .name "b"⟩]⟩⟩] []⟩

theorem readable_spreadCall (l : Loc) (op : CmpOperator) (h : op ≠ .isIn) (h' : op ≠ .notIn) :
    (spreadCall l op).Readable .alone := by
  have hname : ∀ id ∈ ["f", "x", "a", "b"], ∀ p, Expr.Readable p ⟨l, .name id⟩ := by
    intro id hid p
    have hnames : ∀ id ∈ ["f", "x", "a", "b"], isName id.toList = true := by decide
    exact .name (hnames id hid)
  have hparams : ∀ param ∈ [Param.mk l "a", Param.mk l "b"], isIdentifier param.name.toList = true := by
    intro param hparam
    rcases List.mem_pair.mp hparam with rfl | rfl
    · exact (by decide : isIdentifier "a".toList = true)
    · exact (by decide : isIdentifier "b".toList = true)
  refine .call (hname "f" (by simp) _) (List.forall_mem_cons.mpr ⟨?_, List.forall_mem_singleton.mpr ?_⟩)
  · exact .starred (.list (List.forall_mem_singleton.mpr (hname "x" (by simp) _)))
  · refine .lambda hparams (Nat.le_succ 1) (List.forall_mem_singleton.mpr ?_) ?_
    · exact .unaryOp (.constant trivial)
    exact .compare h h' (hname "a" (by simp) _) (List.forall_mem_singleton.mpr (hname "b" (by simp) _))

theorem renderExpr_same_text_spreadCall :
    (spreadCall ⟨1, 0⟩ .is).Readable .alone ∧ (spreadCall ⟨2, 4⟩ .eq).Readable .alone ∧
    (Renderer.renderExpr id (spreadCall ⟨1, 0⟩ .is) Renderer.new).result =
      .ok "f(...[x], ((a, b = (-1)) => ((a === b))))" ∧
    ∃ text, (Renderer.renderExpr id (spreadCall ⟨1, 0⟩ .is) Renderer.new).result = .ok text ∧
      (Renderer.renderExpr id (spreadCall ⟨2, 4⟩ .eq) Renderer.new).result = .ok text :=
  have h₁ := readable_spreadCall ⟨1, 0⟩ .is (by decide) (by decide)
  have h₂ := readable_spreadCall ⟨2, 4⟩ .eq (by decide) (by decide)
  ⟨h₁, h₂, rfl, (renderExpr_same_text_iff h₁ h₂ id id (Set.injOn_id _) (Set.injOn_id _) .new .new).mpr
    ⟨rfl, rfl⟩⟩

end ScriptTree
