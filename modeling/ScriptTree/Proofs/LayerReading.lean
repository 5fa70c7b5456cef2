/-
  ScriptTree/Proofs/LayerReading.lean
  ===================================
  **Reading a layer.**  The layer of a readable expression tells which form has been written
  (`Readable.kind_layer`): most forms have brackets or a tail of their own, and those that share the
  round brackets are told apart by the sign behind their first part.  From there on each form gives
  back what it was made of, up to locations (`Readable.bare_of_layer`).
-/
import ScriptTree.Proofs.ExprLayers

namespace ScriptTree

/-! ### Which form has been written -/

/-- What the sign behind the first part of an operation stands for. -/
def operationKind (sign : List Char) : ExprKind :=
  if sign == ['?'] then .ifExp
  else if sign == ['=', '>'] then .lambda
  else if [['&', '&'], ['|', '|']].contains sign then .boolOp
  else if [['=', '=', '='], ['!', '=', '='], ['<'], ['<', '='], ['>'], ['>', '=']].contains sign then
    .compare
  else .binOp

def Layer.kind : Layer → ExprKind
  | .stem (.word text) => if isName text then .name else .constant
  | .stem (.string _) => .constant
  | .stem (.group .square _) => .list
  | .stem (.group .curly _) => .dict
  | .stem (.group .round (_ :: sign :: _)) => operationKind sign
  | .stem (.group .round parts) => if parts.head?.bind List.head? = some 'M' then .binOp else .unaryOp
  | .tailed _ (.member _) => .attribute
  | .tailed _ (.applied .square _) => .subscript
  | .tailed _ (.applied _ _) => .call
  | .spread _ => .starred

theorem Constant.kind_stem (value : Constant) (h : value.Readable) :
    (Layer.stem value.stem).kind = .constant := by
  cases value with
  | null => decide
  | bool b => cases b <;> decide
  | int n =>
    have hname : isName (Decimal.intText n.toInt).toList = false := by
      rw [isName, not_isIdentifier_intText]
      rfl
    change (if isName (Decimal.intText n.toInt).toList then _ else _) = _
    rw [hname]
    rfl
  | float x => exact absurd h id
  | str s => rfl

namespace Expr.Readable

variable {p q : Standing} {e e' : Expr}

/-- **The layer shows the form.** -/
theorem kind_layer (h : e.Readable p) : (e.form.map Expr.chars).layer.kind = e.form.kind := by
  cases h with
  | name h => exact if_pos h
  | constant h => exact Constant.kind_stem _ h
  | @binOp _ _ left right op hop hleft hright =>
    cases op with
    | matMult => exact absurd rfl hop
    | _ => rfl
  | @unaryOp _ _ op operand hoperand => cases op <;> rfl
  | @boolOp _ _ op values hlength hvalues =>
    obtain ⟨v, values, rfl⟩ := List.exists_cons_of_length_pos (Nat.lt_of_succ_lt hlength)
    obtain ⟨w, rest, rfl⟩ := List.exists_cons_of_length_pos (Nat.le_of_succ_le_succ hlength)
    cases op <;> rfl
  | @compare _ _ left op comparators hop hop' hleft hothers =>
    cases op with
    | isIn => exact absurd rfl hop
    | notIn => exact absurd rfl hop'
    | _ => rfl
  | _ => rfl

end Expr.Readable

/-! ### What has been written -/

/-- One name for each comparison that is spelled differently. -/
def CmpOperator.bare : CmpOperator → CmpOperator
  | .is => .eq
  | .isNot => .notEq
  | op => op

def Param.bare (param : Param) : Param := ⟨.synthetic, param.name⟩

def Params.bare {ε : Type} (params : Params ε) : Params ε :=
  ⟨.synthetic, params.posOnly.map Param.bare, params.args.map Param.bare, params.rest.map Param.bare,
    params.kwOnly.map Param.bare, params.kwRest.map Param.bare, params.defaults⟩

def Keyword.bare {ε : Type} (keyword : Keyword ε) : Keyword ε := ⟨.synthetic, keyword.arg, keyword.value⟩

def Comprehension.bare {ε : Type} (g : Comprehension ε) : Comprehension ε :=
  ⟨.synthetic, g.target, g.iter, g.ifs⟩

/-- A form without locations and with one name for each comparison. -/
def ExprForm.bare {ε : Type} : ExprForm ε → ExprForm ε
  | .lambda params body => .lambda params.bare body
  | .compare left ops comparators => .compare left (ops.map CmpOperator.bare) comparators
  | .call func args keywords => .call func args (keywords.map Keyword.bare)
  | .listComp elt generators => .listComp elt (generators.map Comprehension.bare)
  | .dictComp key value generators => .dictComp key value (generators.map Comprehension.bare)
  | .generatorExp elt generators => .generatorExp elt (generators.map Comprehension.bare)
  | form => form

theorem wrapped_inj {x y : List Char} (hx : Solid x) (hy : Solid y) (h : wrapped x = wrapped y) :
    x = y := by
  have hparts := Bracket.around_inj (by simpa using hx.part .comma) (by simpa using hy.part .comma) h
  simpa using hparts

theorem BoolOperator.spelling_inj {op op' : BoolOperator}
    (h : op.spelling.toList = op'.spelling.toList) : op = op' := by
  cases op <;> cases op' <;> first | rfl | exact absurd h (by decide)

theorem intersperse_inj {α : Type} {sign : α} {xs ys : List α}
    (h : xs.intersperse sign = ys.intersperse sign) : xs = ys := by
  induction xs generalizing ys with
  | nil =>
    match ys with
    | [] => rfl
    | [_] => cases h
    | _ :: _ :: _ => cases h
  | cons x xs ih =>
    cases xs with
    | nil =>
      match ys, h with
      | [_], h => exact h
    | cons x' xs =>
      match ys, h with
      | y :: y' :: ys, h =>
        rw [List.intersperse_cons_cons, List.intersperse_cons_cons] at h
        obtain ⟨rfl, hrest⟩ := List.cons.inj h
        rw [ih (List.cons.inj hrest).2]

theorem sign_of_intersperse {α : Type} {sign sign' : α} {xs ys : List α} (hx : 2 ≤ xs.length)
    (hy : 2 ≤ ys.length) (h : xs.intersperse sign = ys.intersperse sign') : sign = sign' := by
  match xs, hx, ys, hy, h with
  | _ :: _ :: _, _, _ :: _ :: _, _, h => exact (List.cons.inj (List.cons.inj h).2).1

theorem CmpOperator.bare_of_chars {op op' : CmpOperator} (h₁ : op ≠ .isIn) (h₂ : op ≠ .notIn)
    (h₃ : op' ≠ .isIn) (h₄ : op' ≠ .notIn) (h : op.chars = op'.chars) : op.bare = op'.bare := by
  cases op <;> cases op' <;> first | rfl | contradiction

theorem UnaryOperator.append_inj {op op' : UnaryOperator} {x y : List Char}
    (h : op.spelling.toList ++ x = op'.spelling.toList ++ y) : op = op' ∧ x = y := by
  have hlength : op.spelling.toList.length = op'.spelling.toList.length := by
    cases op <;> cases op' <;> rfl
  obtain ⟨hop, rfl⟩ := List.append_inj h hlength
  refine ⟨?_, rfl⟩
  cases op <;> cases op' <;> first | rfl | contradiction

theorem BinaryOperator.chars_inj {op op' : BinaryOperator} (h₁ : op ≠ .matMult) (h₂ : op ≠ .floorDiv)
    (h₃ : op' ≠ .matMult) (h₄ : op' ≠ .floorDiv) (h : op.chars = op'.chars) : op = op' := by
  cases op <;> cases op' <;> first | rfl | contradiction

theorem BinaryOperator.parts_inj {op op' : BinaryOperator} (hop : op ≠ .matMult) (hop' : op' ≠ .matMult)
    {x y x' y' : List Char} (hx : Solid x) (hy : Solid y) (hx' : Solid x') (hy' : Solid y')
    (h : op.parts x y = op'.parts x' y') : op = op' ∧ x = x' ∧ y = y' := by
  have hparts : ∀ {x y : List Char}, Solid x → Solid y →
      ∀ p ∈ [x, ['/'], y], Separator.blank.Part p := by
    intro x y hx hy
    simp [hx.part, hy.part, part_slash]
  unfold parts at h
  by_cases hfloor : op = .floorDiv
  · by_cases hfloor' : op' = .floorDiv
    · subst hfloor hfloor'
      rw [if_pos rfl, if_pos rfl] at h
      have haround := List.append_cancel_left (List.cons.inj h).1
      have hinner := Bracket.around_inj (hparts hx hy) (hparts hx' hy') haround
      simpa using hinner
    · rw [if_pos hfloor, if_neg hfloor'] at h
      simp at h
  · by_cases hfloor' : op' = .floorDiv
    · rw [if_neg hfloor, if_pos hfloor'] at h
      simp at h
    · rw [if_neg hfloor, if_neg hfloor'] at h
      simp only [List.cons.injEq, and_true] at h
      obtain ⟨rfl, hsign, rfl⟩ := h
      exact ⟨chars_inj hop hfloor hop' hfloor' hsign, rfl, rfl⟩

theorem eq_of_map_eq {α β : Type} {f : α → β} {xs ys : List α}
    (hf : ∀ x ∈ xs, ∀ y ∈ ys, f x = f y → x = y) (h : xs.map f = ys.map f) : xs = ys := by
  induction xs generalizing ys with
  | nil => exact (List.map_eq_nil_iff.mp h.symm).symm
  | cons x xs ih =>
    cases ys with
    | nil => cases h
    | cons y ys =>
      obtain ⟨hhead, htail⟩ := List.cons.inj h
      rw [hf x List.mem_cons_self y List.mem_cons_self hhead]
      rw [ih (fun a ha b hb => hf a (List.mem_cons_of_mem x ha) b (List.mem_cons_of_mem y hb)) htail]

theorem Param.bare_of_names {params params' : List Param}
    (h : (params.map fun param => param.name.toList) = params'.map fun param => param.name.toList) :
    params.map Param.bare = params'.map Param.bare := by
  have hbare : Param.bare = (fun name => ⟨.synthetic, String.ofList name⟩) ∘
      fun param : Param => param.name.toList := by
    funext param
    simp [Param.bare]
  rw [hbare, ← List.map_map, ← List.map_map, h]

/-- The written parameters give back names and defaults. -/
theorem Params.bare_of_formals {l l' : Loc} {args args' : List Param} {rest rest' : Option Param}
    {defaults defaults' : List (List Char)} (hlength : defaults.length ≤ args.length)
    (hlength' : defaults'.length ≤ args'.length)
    (h : (Params.mk l [] args rest [] none defaults).formals =
      (Params.mk l' [] args' rest' [] none defaults').formals) :
    (Params.mk l [] args rest [] none defaults).bare =
      (Params.mk l' [] args' rest' [] none defaults').bare := by
  have hargs := congrArg (List.filterMap Formal.arg?) h
  rw [args_formals, args_formals] at hargs
  have hrest := congrArg (List.filterMap Formal.rest?) h
  rw [rest_formals, rest_formals] at hrest
  have hdefaults := congrArg (List.filterMap Formal.value?) h
  rw [defaults_formals _ hlength, defaults_formals _ hlength'] at hdefaults
  have hbareArgs := Param.bare_of_names hargs
  have hbareRest : rest.map Param.bare = rest'.map Param.bare := by
    simpa using congrArg List.head? (Param.bare_of_names hrest)
  simp only [positional, List.nil_append] at hbareArgs hdefaults
  simp only [bare, hbareArgs, hbareRest, hdefaults]

namespace Expr.Readable

variable {p q : Standing} {e e' : Expr}

theorem solid_keys {keys : List (Option Expr)} {values : List (List Char)}
    {entry : Option (List Char) × List Char} (h : ∀ k, some k ∈ keys → k.Readable .alone)
    (hentry : entry ∈ (keys.map (Option.map Expr.chars)).zip values) : ∀ key ∈ entry.1, Solid key := by
  intro key hkey
  obtain ⟨k, hk, rfl⟩ := exists_key hentry hkey
  exact (h k hk).solid

theorem good_formals (l : Loc) {args : List Param} {rest : Option Param} {defaults : List Expr}
    (hnames : ∀ param ∈ args ++ rest.toList, isIdentifier param.name.toList = true)
    (hdefaults : ∀ d ∈ defaults, d.Readable .alone) :
    ∀ x ∈ (Params.mk l [] args rest [] none (defaults.map Expr.chars)).formals, x.Good :=
  Params.good_formals hnames (List.forall_mem_map.mpr fun d hd => (hdefaults d hd).solid)

/-- **The layer shows what a form is made of**, up to locations. -/
theorem bare_of_layer (h : e.Readable p) (h' : e'.Readable q)
    (hlayer : (e.form.map Expr.chars).layer = (e'.form.map Expr.chars).layer) :
    (e.form.map Expr.chars).bare = (e'.form.map Expr.chars).bare := by
  -- each form can only meet itself
  have hkind : e.form.kind = e'.form.kind := by
    rw [← h.kind_layer, hlayer, h'.kind_layer]
  cases h with
  | name hname =>
    cases h' with
    | name hname' =>
      rw [ExprForm.map, ExprForm.map, String.toList_inj.mp (Stem.word.inj (Layer.stem.inj hlayer))]
    | _ => cases hkind
  | constant hvalue =>
    cases h' with
    | constant hvalue' =>
      rw [ExprForm.map, ExprForm.map, Constant.stem_inj hvalue hvalue' (Layer.stem.inj hlayer)]
    | _ => cases hkind
  | «attribute» hvalue hattr =>
    cases h' with
    | «attribute» hvalue' hattr' =>
      obtain ⟨hbase, htail⟩ := Layer.tailed.inj hlayer
      rw [ExprForm.map, ExprForm.map, hbase, String.toList_inj.mp (Tail.member.inj htail)]
    | _ => cases hkind
  | subscript hvalue hindex =>
    cases h' with
    | subscript hvalue' hindex' =>
      obtain ⟨hbase, htail⟩ := Layer.tailed.inj hlayer
      rw [ExprForm.map, ExprForm.map, hbase, (List.cons.inj (Tail.applied.inj htail).2).1]
    | _ => cases hkind
  | call hfunc hargs =>
    cases h' with
    | call hfunc' hargs' =>
      obtain ⟨hbase, htail⟩ := Layer.tailed.inj hlayer
      rw [ExprForm.map, ExprForm.map, hbase, (Tail.applied.inj htail).2]
    | _ => cases hkind
  | binOp hop hleft hright =>
    cases h' with
    | binOp hop' hleft' hright' =>
      obtain ⟨rfl, hx, hy⟩ := BinaryOperator.parts_inj hop hop' hleft.solid hright.solid hleft'.solid
        hright'.solid (Stem.group.inj (Layer.stem.inj hlayer)).2
      rw [ExprForm.map, ExprForm.map, hx, hy]
    | _ => cases hkind
  | unaryOp hoperand =>
    cases h' with
    | unaryOp hoperand' =>
      have hparts := (Stem.group.inj (Layer.stem.inj hlayer)).2
      obtain ⟨rfl, hx⟩ := UnaryOperator.append_inj (List.cons.inj hparts).1
      rw [ExprForm.map, ExprForm.map, hx]
    | _ => cases hkind
  | @boolOp _ _ op values hlength hvalues =>
    cases h' with
    | @boolOp _ _ op' values' hlength' hvalues' =>
      have hparts := (Stem.group.inj (Layer.stem.inj hlayer)).2
      obtain rfl : op = op' := BoolOperator.spelling_inj (sign_of_intersperse (by simpa using hlength)
        (by simpa using hlength') hparts)
      rw [ExprForm.map, ExprForm.map, intersperse_inj hparts]
    | _ => cases hkind
  | compare hop₁ hop₂ hleft hothers =>
    cases h' with
    | compare hop₁' hop₂' hleft' hothers' =>
      have hparts := (Stem.group.inj (Layer.stem.inj hlayer)).2
      obtain ⟨hx, hrest⟩ := List.cons.inj hparts
      obtain ⟨hsign, hy⟩ := List.cons.inj hrest
      have hop := CmpOperator.bare_of_chars hop₁ hop₂ hop₁' hop₂' hsign
      simp only [ExprForm.map, ExprForm.bare, List.map_cons, List.map_nil, hx, hop]
      exact congrArg _ hy
    | _ => cases hkind
  | ifExp htest hbody horelse =>
    cases h' with
    | ifExp htest' hbody' horelse' =>
      have hparts := (Stem.group.inj (Layer.stem.inj hlayer)).2
      simp only [List.cons.injEq, true_and, and_true] at hparts
      obtain ⟨hx, hy, hz⟩ := hparts
      rw [ExprForm.map, ExprForm.map, wrapped_inj htest.solid htest'.solid hx,
        wrapped_inj hbody.solid hbody'.solid hy, wrapped_inj horelse.solid horelse'.solid hz]
    | _ => cases hkind
  | list helts =>
    cases h' with
    | list helts' => rw [ExprForm.map, ExprForm.map, (Stem.group.inj (Layer.stem.inj hlayer)).2]
    | _ => cases hkind
  | @dict _ _ keys values hlength hkeys hvalues =>
    cases h' with
    | @dict _ _ keys' values' hlength' hkeys' hvalues' =>
      have hentries := eq_of_map_eq
        (fun x hx y hy => entryText_inj (solid_keys hkeys hx) (solid_keys hkeys' hy))
        (Stem.group.inj (Layer.stem.inj hlayer)).2
      have hunzip := congrArg List.unzip hentries
      rw [List.unzip_zip (by simpa using hlength), List.unzip_zip (by simpa using hlength')] at hunzip
      rw [ExprForm.map, ExprForm.map, (Prod.mk.inj hunzip).1, (Prod.mk.inj hunzip).2]
    | _ => cases hkind
  | @lambda _ _ l args rest defaults body hnames hlength hdefaults hbody =>
    cases h' with
    | @lambda _ _ l' args' rest' defaults' body' hnames' hlength' hdefaults' hbody' =>
      have hparts := (Stem.group.inj (Layer.stem.inj hlayer)).2
      simp only [List.cons.injEq, true_and, and_true] at hparts
      obtain ⟨hparams, hx⟩ := hparts
      have hgood := good_formals l hnames hdefaults
      have hgood' := good_formals l' hnames' hdefaults'
      have htexts := Bracket.around_inj (List.forall_mem_map.mpr fun x hx => Formal.part (hgood x hx))
        (List.forall_mem_map.mpr fun x hx => Formal.part (hgood' x hx)) hparams
      have hformals := eq_of_map_eq (fun x hx y hy => Formal.text_inj (hgood x hx) (hgood' y hy)) htexts
      have hbare := Params.bare_of_formals (by simpa using hlength) (by simpa using hlength') hformals
      simp only [ExprForm.map, ExprForm.bare, Params.map, hbare, wrapped_inj hbody.solid hbody'.solid hx]
    | _ => cases hkind
  | starred hvalue =>
    cases h' with
    | starred hvalue' => rw [ExprForm.map, ExprForm.map, Layer.spread.inj hlayer]
    | _ => cases hkind

end Expr.Readable

end ScriptTree
