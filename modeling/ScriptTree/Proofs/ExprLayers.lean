/-
  ScriptTree/Proofs/ExprLayers.lean
  =================================
  **The layers of expressions.**  `Expr.Readable` describes the expressions whose structure can be
  seen in their text.  What is written for one of them is the text of a `Layer`, with the texts of
  its children in it (`ExprForm.layer`, `Expr.chars`).  All parts of this layer are whole texts
  (`Readable.good_layer`), so that it can be found in the text again.
-/
import ScriptTree.Proofs.Brackets
import ScriptTree.Render.Expr

namespace ScriptTree

/-! ### Names and constants -/

def startsIdentifier (c : Char) : Bool := c.isAlpha || c = '_' || c = '$'

def continuesIdentifier (c : Char) : Bool := c.isAlphanum || c = '_' || c = '$'

def isIdentifier : List Char → Bool
  | [] => false
  | c :: rest => startsIdentifier c && rest.all continuesIdentifier

/-- Whether a word is a name and not one of the constants. -/
def isName (word : List Char) : Bool :=
  isIdentifier word && word ∉ ["null".toList, "true".toList, "false".toList]

theorem isWordChar_of_isIdentifier {word : List Char} (h : isIdentifier word = true) :
    word ≠ [] ∧ ∀ c ∈ word, isWordChar c = true := by
  cases word with
  | nil => cases h
  | cons c rest =>
    simp only [isIdentifier, startsIdentifier, continuesIdentifier, Bool.and_eq_true,
      List.all_eq_true] at h
    refine ⟨List.cons_ne_nil c rest, List.forall_mem_cons.mpr ⟨?_, fun d hd => ?_⟩⟩
    · have hc := h.1
      simp only [isWordChar, Char.isAlphanum, Bool.or_eq_true] at hc ⊢
      tauto
    · have hd := h.2 d hd
      simp only [isWordChar, Bool.or_eq_true] at hd ⊢
      tauto

theorem not_startsIdentifier_of_isDigit {c : Char} (h : c.isDigit = true) :
    startsIdentifier c = false := by
  have hother : ∀ d : Char, d.isDigit = false → c ≠ d := by
    rintro d hd rfl
    rw [hd] at h
    cases h
  have halpha : c.isAlpha = false := by
    obtain ⟨-, hnine⟩ := Bool.and_eq_true_iff.mp h
    have hmost : c.val.toNat ≤ 57 := UInt32.le_iff_toNat_le.mp (of_decide_eq_true hnine)
    rw [← Bool.not_eq_true]
    intro hc
    rcases Bool.or_eq_true_iff.mp hc with hupper | hlower
    · have hleast : 65 ≤ c.val.toNat := UInt32.le_iff_toNat_le.mp (of_decide_eq_true hupper).1
      omega
    · have hleast : 97 ≤ c.val.toNat :=
        UInt32.le_iff_toNat_le.mp (of_decide_eq_true (Bool.and_eq_true_iff.mp hlower).1)
      omega
  simp [startsIdentifier, halpha, hother '_' rfl, hother '$' rfl]

theorem solid_of_isIdentifier {word : List Char} (h : isIdentifier word = true) : Solid word :=
  Layer.solid_stem (p := .word word) (isWordChar_of_isIdentifier h)

namespace Decimal

theorem toList_intText (n : Int) :
    (intText n).toList =
      if n < 0 then '-' :: Nat.toDigits 10 n.natAbs else Nat.toDigits 10 n.natAbs := by
  unfold intText natText
  split
  · simp
  · simp

theorem mem_intText {n : Int} {c : Char} (h : c ∈ (intText n).toList) :
    c.isDigit = true ∨ c = '-' := by
  have hdigit : c ∈ Nat.toDigits 10 n.natAbs → c.isDigit = true :=
    Nat.isDigit_of_mem_toDigits (by decide) (by decide)
  rw [toList_intText] at h
  split at h
  · rcases List.mem_cons.mp h with rfl | h
    · exact Or.inr rfl
    · exact Or.inl (hdigit h)
  · exact Or.inl (hdigit h)

theorem intText_ne_nil (n : Int) : (intText n).toList ≠ [] := by
  rw [toList_intText]
  split
  · exact List.cons_ne_nil _ _
  · exact Nat.toDigits_ne_nil

theorem toDigits_inj {m n : Nat} (h : Nat.toDigits 10 m = Nat.toDigits 10 n) : m = n := by
  have hvalue : ∀ k, Nat.ofDigitChars 10 (Nat.toDigits 10 k) 0 = k := fun k =>
    Nat.ofDigitChars_toDigits (by decide) (by decide)
  rw [← hvalue m, h, hvalue]

theorem not_mem_toDigits_sign (n : Nat) : '-' ∉ Nat.toDigits 10 n := by
  intro h
  have hdigit : '-'.isDigit = true := Nat.isDigit_of_mem_toDigits (by decide) (by decide) h
  exact absurd hdigit (by decide)

theorem intText_inj {m n : Int} (h : (intText m).toList = (intText n).toList) : m = n := by
  rw [toList_intText, toList_intText] at h
  by_cases hm : m < 0
  · by_cases hn : n < 0
    · rw [if_pos hm, if_pos hn] at h
      have habs := toDigits_inj (List.cons.inj h).2
      omega
    · rw [if_pos hm, if_neg hn] at h
      exact absurd (h ▸ List.mem_cons_self) (not_mem_toDigits_sign n.natAbs)
  · by_cases hn : n < 0
    · rw [if_neg hm, if_pos hn] at h
      exact absurd (h.symm ▸ List.mem_cons_self) (not_mem_toDigits_sign m.natAbs)
    · rw [if_neg hm, if_neg hn] at h
      have habs := toDigits_inj h
      omega

end Decimal

namespace Constant

/-- Constants whose text gives them back: all but floating point numbers and texts with quotes. -/
def Readable : Constant → Prop
  | .null | .bool _ | .int _ => True
  | .float _ => False
  | .str s => '"' ∉ s.toList

def stem : Constant → Stem
  | .str s => .string s.toList
  | value => .word value.spelling.toList

theorem good_stem {value : Constant} (h : value.Readable) : value.stem.Good := by
  cases value with
  | null => exact isWordChar_of_isIdentifier (by decide)
  | bool b => cases b <;> exact isWordChar_of_isIdentifier (by decide)
  | int n =>
    refine ⟨Decimal.intText_ne_nil _, fun c hc => ?_⟩
    rcases Decimal.mem_intText hc with hdigit | rfl
    · simp [isWordChar, Char.isAlphanum, hdigit]
    · rfl
  | float x => exact absurd h id
  | str s => exact h

theorem not_isIdentifier_intText (n : Int) : isIdentifier (Decimal.intText n).toList = false := by
  have hstart : ∀ c ∈ (Decimal.intText n).toList, startsIdentifier c = false := by
    intro c hc
    rcases Decimal.mem_intText hc with hdigit | rfl
    · exact not_startsIdentifier_of_isDigit hdigit
    · rfl
  cases htext : (Decimal.intText n).toList with
  | nil => rfl
  | cons c rest => simp [isIdentifier, hstart c (by simp [htext])]

theorem intText_ne_identifier (n : Int) {word : List Char} (h : isIdentifier word = true) :
    word ≠ (Decimal.intText n).toList := by
  rintro rfl
  rw [not_isIdentifier_intText] at h
  cases h

theorem stem_inj {v w : Constant} (hv : v.Readable) (hw : w.Readable) (h : v.stem = w.stem) :
    v = w := by
  cases v with
  | null =>
    cases w with
    | null => rfl
    | bool b => cases b <;> exact absurd (Stem.word.inj h) (by decide)
    | int n => exact absurd (Stem.word.inj h) (intText_ne_identifier _ (by decide))
    | float x => exact absurd hw id
    | str s => cases h
  | bool b =>
    cases w with
    | null => cases b <;> exact absurd (Stem.word.inj h) (by decide)
    | bool c => cases b <;> cases c <;> first | rfl | exact absurd (Stem.word.inj h) (by decide)
    | int n => exact absurd (Stem.word.inj h) (intText_ne_identifier _ (by cases b <;> decide))
    | float x => exact absurd hw id
    | str s => cases h
  | int m =>
    cases w with
    | null => exact absurd (Stem.word.inj h).symm (intText_ne_identifier _ (by decide))
    | bool c => exact absurd (Stem.word.inj h).symm (intText_ne_identifier _ (by cases c <;> decide))
    | int n => rw [Int64.toInt_inj.mp (Decimal.intText_inj (Stem.word.inj h))]
    | float x => exact absurd hw id
    | str s => cases h
  | float x => exact absurd hv id
  | str s =>
    cases w with
    | float x => exact absurd hw id
    | str t => rw [String.toList_inj.mp (Stem.string.inj h)]
    | _ => cases h

end Constant

/-! ### Readable expressions -/

/-- Where an expression stands: on its own, or among elements that may also be spread. -/
inductive Standing where
  | alone
  | element

/-- The expressions whose structure can be seen in their text. -/
inductive Expr.Readable : Standing → Expr → Prop
  | name {p : Standing} {l : Loc} {id : String} : isName id.toList = true → Readable p ⟨l, .name id⟩
  | constant {p : Standing} {l : Loc} {value : Constant} : value.Readable →
      Readable p ⟨l, .constant value⟩
  | «attribute» {p : Standing} {l : Loc} {value : Expr} {attr : String} : Readable .alone value →
      isIdentifier attr.toList = true → Readable p ⟨l, .attribute value attr⟩
  | subscript {p : Standing} {l : Loc} {value index : Expr} : Readable .alone value →
      Readable .alone index → Readable p ⟨l, .subscript value index⟩
  | call {p : Standing} {l : Loc} {func : Expr} {args : List Expr} : Readable .alone func →
      (∀ a ∈ args, Readable .element a) → Readable p ⟨l, .call func args []⟩
  | binOp {p : Standing} {l : Loc} {left right : Expr} {op : BinaryOperator} : op ≠ .matMult →
      Readable .alone left → Readable .alone right → Readable p ⟨l, .binOp left op right⟩
  | unaryOp {p : Standing} {l : Loc} {op : UnaryOperator} {operand : Expr} : Readable .alone operand →
      Readable p ⟨l, .unaryOp op operand⟩
  | boolOp {p : Standing} {l : Loc} {op : BoolOperator} {values : List Expr} : 2 ≤ values.length →
      (∀ v ∈ values, Readable .alone v) → Readable p ⟨l, .boolOp op values⟩
  /-- One comparison.  Unless there is one operand behind it, it has no text at all. -/
  | compare {p : Standing} {l : Loc} {left : Expr} {op : CmpOperator} {comparators : List Expr} :
      op ≠ .isIn → op ≠ .notIn → Readable .alone left → (∀ c ∈ comparators, Readable .alone c) →
      Readable p ⟨l, .compare left [op] comparators⟩
  | ifExp {p : Standing} {l : Loc} {test body orelse : Expr} : Readable .alone test →
      Readable .alone body → Readable .alone orelse → Readable p ⟨l, .ifExp test body orelse⟩
  | list {p : Standing} {l : Loc} {elts : List Expr} : (∀ e ∈ elts, Readable .element e) →
      Readable p ⟨l, .list elts⟩
  | dict {p : Standing} {l : Loc} {keys : List (Option Expr)} {values : List Expr} :
      keys.length = values.length → (∀ k, some k ∈ keys → Readable .alone k) →
      (∀ v ∈ values, Readable .alone v) → Readable p ⟨l, .dict keys values⟩
  | lambda {p : Standing} {l : Loc} {l' : Loc} {args : List Param} {rest : Option Param}
      {defaults : List Expr} {body : Expr} :
      (∀ param ∈ args ++ rest.toList, isIdentifier param.name.toList = true) →
      defaults.length ≤ args.length → (∀ d ∈ defaults, Readable .alone d) → Readable .alone body →
      Readable p ⟨l, .lambda ⟨l', [], args, rest, [], none, defaults⟩ body⟩
  | starred {l : Loc} {value : Expr} : Readable .alone value → Readable .element ⟨l, .starred value⟩

/-! ### Parameters and entries -/

/-- A parameter as it is written. -/
inductive Formal where
  | single (name : List Char)
  | initial (name value : List Char)
  | rest (name : List Char)

namespace Formal

def text : Formal → List Char
  | .single name => name
  | .initial name value => name ++ ' ' :: '=' :: ' ' :: value
  | .rest name => '.' :: '.' :: '.' :: name

def Good : Formal → Prop
  | .single name | .rest name => isIdentifier name = true
  | .initial name value => isIdentifier name = true ∧ Solid value

def arg? : Formal → Option (List Char)
  | .single name | .initial name _ => some name
  | .rest _ => none

def value? : Formal → Option (List Char)
  | .initial _ value => some value
  | .single _ | .rest _ => none

def rest? : Formal → Option (List Char)
  | .rest name => some name
  | .single _ | .initial .. => none

theorem part {x : Formal} (h : x.Good) : Separator.comma.Part x.text := by
  cases x with
  | single name => exact (solid_of_isIdentifier h).part _
  | initial name value =>
    have hsign : Whole Separator.comma.stops [' ', '=', ' '] := rfl
    have hname := (solid_of_isIdentifier h.1).part .comma
    refine ⟨List.append_ne_nil_of_left_ne_nil hname.1 _, hname.2.append ?_⟩
    exact hsign.append (h.2.part .comma).2
  | rest name =>
    have hpoints : Whole Separator.comma.stops ['.', '.', '.'] := rfl
    exact ⟨List.cons_ne_nil _ _, hpoints.append ((solid_of_isIdentifier h).part .comma).2⟩

theorem single_ne_initial {name name' value : List Char} (h : isIdentifier name = true)
    (h' : isIdentifier name' = true) : (single name).text ≠ (initial name' value).text := by
  intro heq
  rw [text, text, ← List.append_nil name] at heq
  have hname := ((solid_of_isIdentifier h).part .blank).2
  have hname' := ((solid_of_isIdentifier h').part .blank).2
  cases (hname.append_inj hname' ends_nil (ends_cons rfl _) heq).2

theorem initial_inj {name name' value value' : List Char} (h : isIdentifier name = true)
    (h' : isIdentifier name' = true) (heq : (initial name value).text = (initial name' value').text) :
    name = name' ∧ value = value' := by
  have hname := ((solid_of_isIdentifier h).part .blank).2
  have hname' := ((solid_of_isIdentifier h').part .blank).2
  obtain ⟨rfl, hvalue⟩ := hname.append_inj hname' (ends_cons rfl _) (ends_cons rfl _) heq
  exact ⟨rfl, by simpa using hvalue⟩

theorem initial_ne_point {name value : List Char} (h : isIdentifier name = true) {rest : List Char} :
    (initial name value).text ≠ '.' :: rest := by
  obtain ⟨c, more, rfl, hc⟩ := (solid_of_isIdentifier h).head
  exact fun heq => hc (List.cons.inj heq).1

theorem text_inj {x y : Formal} (hx : x.Good) (hy : y.Good) (h : x.text = y.text) : x = y := by
  cases x with
  | single name =>
    cases y with
    | single name' => exact congrArg single h
    | initial name' value => exact absurd h (single_ne_initial hx hy.1)
    | rest name' => exact absurd h (solid_of_isIdentifier hx).ne_point
  | initial name value =>
    cases y with
    | single name' => exact absurd h.symm (single_ne_initial hy hx.1)
    | initial name' value' =>
      obtain ⟨rfl, rfl⟩ := initial_inj hx.1 hy.1 h
      rfl
    | rest name' => exact absurd h (initial_ne_point hx.1)
  | rest name =>
    cases y with
    | single name' => exact absurd h.symm (solid_of_isIdentifier hy).ne_point
    | initial name' value => exact absurd h.symm (initial_ne_point hy.1)
    | rest name' =>
      obtain rfl : name = name' := by simpa [text] using h
      rfl

end Formal

theorem filterMap_range_getElem? {α : Type} (as : List α) :
    (List.range as.length).filterMap (fun i => as[i]?) = as := by
  induction as with
  | nil => rfl
  | cons a as ih =>
    rw [List.length_cons, List.range_succ_eq_map]
    simpa [List.filterMap_map, Function.comp_def] using ih

namespace Params

variable (params : Params (List Char))

def formal (i : Nat) (param : Param) : Formal :=
  match (params.defaultIndex? i).bind fun j => params.defaults[j]? with
  | none => .single param.name.toList
  | some value => .initial param.name.toList value

/-- The parameters of a list as they are written. -/
def formals : List Formal :=
  params.positional.mapIdx params.formal ++
    params.rest.toList.map fun param => .rest param.name.toList

theorem arg?_formal (i : Nat) (param : Param) :
    (params.formal i param).arg? = some param.name.toList := by
  unfold formal
  split <;> rfl

theorem value?_formal (i : Nat) (param : Param) :
    (params.formal i param).value? = (params.defaultIndex? i).bind fun j => params.defaults[j]? := by
  unfold formal
  split
  · rename_i h
    exact h.symm
  · rename_i value h
    exact h.symm

theorem rest?_formal (i : Nat) (param : Param) : (params.formal i param).rest? = none := by
  unfold formal
  split <;> rfl

theorem filterMap_formals {g : Formal → Option (List Char)} {k : Nat → Option (List Char)}
    (h : ∀ i param, g (params.formal i param) = k i) :
    (params.positional.mapIdx params.formal).filterMap g =
      (List.range params.positional.length).filterMap k := by
  have hrange : List.range params.positional.length = params.positional.zipIdx.map Prod.snd := by
    rw [List.zipIdx_map_snd, List.range_eq_range']
  rw [List.mapIdx_eq_zipIdx_map, hrange, List.filterMap_map, List.filterMap_map]
  congr 1
  funext ⟨param, i⟩
  exact h i param

theorem args_formals :
    params.formals.filterMap Formal.arg? = params.positional.map fun param => param.name.toList := by
  have hpositional : (params.positional.mapIdx params.formal).filterMap Formal.arg? =
      params.positional.map fun param => param.name.toList := by
    rw [List.mapIdx_eq_zipIdx_map, List.filterMap_map]
    simp only [Function.comp_def, arg?_formal]
    rw [List.filterMap_eq_map']
    conv_rhs => rw [← List.zipIdx_map_fst 0 params.positional, List.map_map]
    rfl
  rw [formals, List.filterMap_append, hpositional]
  simp [List.filterMap_map, Function.comp_def, Formal.arg?]

theorem rest_formals :
    params.formals.filterMap Formal.rest? = params.rest.toList.map fun param => param.name.toList := by
  have hpositional := params.filterMap_formals (k := fun _ => none) params.rest?_formal
  rw [formals, List.filterMap_append, hpositional]
  simp [List.filterMap_map, Function.comp_def, Formal.rest?]

/-- The defaults are those of the last parameters. -/
theorem defaults_formals (h : params.defaults.length ≤ params.positional.length) :
    params.formals.filterMap Formal.value? = params.defaults := by
  obtain ⟨first, hlength⟩ := Nat.exists_eq_add_of_le' h
  have hindex : ∀ i, params.defaultIndex? i = if i < first then none else some (i - first) := by
    intro i
    rw [defaultIndex?, hlength, Nat.add_sub_cancel]
  have hfirst : (List.range first).filterMap
      (fun i => (params.defaultIndex? i).bind fun j => params.defaults[j]?) = [] := by
    rw [List.filterMap_eq_nil_iff]
    intro i hi
    rw [hindex, if_pos (List.mem_range.mp hi)]
    rfl
  have hlast : ∀ i, ((params.defaultIndex? (first + i)).bind fun j => params.defaults[j]?) =
      params.defaults[i]? := by
    intro i
    rw [hindex, if_neg (by omega), Nat.add_sub_cancel_left]
    rfl
  have hpositional :
      (params.positional.mapIdx params.formal).filterMap Formal.value? = params.defaults := by
    rw [params.filterMap_formals params.value?_formal, hlength, List.range_add, List.filterMap_append,
      hfirst, List.nil_append, List.filterMap_map]
    simp only [Function.comp_def, hlast]
    exact filterMap_range_getElem? params.defaults
  rw [formals, List.filterMap_append, hpositional]
  simp [List.filterMap_map, Function.comp_def, Formal.value?]

end Params

/-- An entry of a dictionary as it is written. -/
def entryText : Option (List Char) × List Char → List Char
  | (none, value) => '.' :: '.' :: '.' :: value
  | (some key, value) => key ++ ':' :: ' ' :: value

theorem part_entryText {entry : Option (List Char) × List Char} (hkey : ∀ key ∈ entry.1, Solid key)
    (hvalue : Solid entry.2) : Separator.comma.Part (entryText entry) := by
  obtain ⟨key, value⟩ := entry
  cases key with
  | none =>
    have hpoints : Whole Separator.comma.stops ['.', '.', '.'] := rfl
    exact ⟨List.cons_ne_nil _ _, hpoints.append (hvalue.part .comma).2⟩
  | some key =>
    have hcolon : Whole Separator.comma.stops [':', ' '] := rfl
    have hpart := (hkey key rfl).part .comma
    refine ⟨List.append_ne_nil_of_left_ne_nil hpart.1 _, hpart.2.append ?_⟩
    exact hcolon.append (hvalue.part .comma).2

theorem keyed_ne_spread {key value value' : List Char} (hkey : Solid key) :
    entryText (some key, value) ≠ entryText (none, value') := by
  obtain ⟨c, rest, rfl, hc⟩ := hkey.head
  exact fun h => hc (List.cons.inj h).1

theorem entryText_inj {x y : Option (List Char) × List Char} (hx : ∀ key ∈ x.1, Solid key)
    (hy : ∀ key ∈ y.1, Solid key) (h : entryText x = entryText y) : x = y := by
  obtain ⟨key, value⟩ := x
  obtain ⟨key', value'⟩ := y
  cases key with
  | none =>
    cases key' with
    | none =>
      obtain rfl : value = value' := by simpa [entryText] using h
      rfl
    | some key' => exact absurd h.symm (keyed_ne_spread (hy key' rfl))
  | some key =>
    cases key' with
    | none => exact absurd h (keyed_ne_spread (hx key rfl))
    | some key' =>
      obtain ⟨rfl, hvalue⟩ := (hx key rfl).whole.append_inj (hy key' rfl).whole (ends_cons rfl _)
        (ends_cons rfl _) h
      obtain rfl : value = value' := by simpa using hvalue
      rfl

/-! ### Layers of expressions -/

/-- A text in round brackets of its own. -/
def wrapped (text : List Char) : List Char := Bracket.round.around .comma [text]

theorem wrapped_eq (text : List Char) : wrapped text = '(' :: text ++ [')'] := by
  simp [wrapped, Bracket.around, Bracket.opening, Bracket.closing]

def BinaryOperator.chars (op : BinaryOperator) : List Char := (op.spelling?.getD "").toList

def CmpOperator.chars (op : CmpOperator) : List Char := (op.spelling?.getD "").toList

/-- The parts of an operation, between its brackets. -/
def BinaryOperator.parts (op : BinaryOperator) (left right : List Char) : List (List Char) :=
  if op = .floorDiv then ["Math.floor".toList ++ Bracket.round.around .blank [left, ['/'], right]]
  else [left, op.chars, right]

theorem BinaryOperator.parts_floorDiv (left right : List Char) :
    BinaryOperator.floorDiv.parts left right =
      ["Math.floor(".toList ++ left ++ " / ".toList ++ right ++ [')']] := by
  simp [parts, Bracket.around, Bracket.opening, Bracket.closing, Separator.chars,
    List.intercalate_cons_cons]

/-- The layer of a form, from the texts of its children. -/
def ExprForm.layer : ExprForm (List Char) → Layer
  | .name id => .stem (.word id.toList)
  | .constant value => .stem value.stem
  | .list elts => .stem (.group .square elts)
  | .dict keys values => .stem (.group .curly ((keys.zip values).map entryText))
  | .boolOp op values => .stem (.group .round (values.intersperse op.spelling.toList))
  | .binOp left op right => .stem (.group .round (op.parts left right))
  | .unaryOp op operand => .stem (.group .round [op.spelling.toList ++ operand])
  | .compare left ops comparators =>
    .stem (.group .round (left :: ops.map CmpOperator.chars ++ comparators))
  | .ifExp test body orelse =>
    .stem (.group .round [wrapped test, ['?'], wrapped body, [':'], wrapped orelse])
  | .lambda params body =>
    .stem (.group .round
      [Bracket.round.around .comma (params.formals.map Formal.text), ['=', '>'], wrapped body])
  | .attribute value attr => .tailed value (.member attr.toList)
  | .subscript value index => .tailed value (.applied .square [index])
  | .call func args _ => .tailed func (.applied .round args)
  | .starred value => .spread value
  | _ => .spread []

/-- The text of an expression. -/
def Expr.chars : Expr → List Char := Expr.fold fun _ form => form.layer.text

theorem Expr.chars_eq (e : Expr) : e.chars = (e.form.map Expr.chars).layer.text := by
  cases e with
  | mk l form => exact Expr.fold_mk _ l form

/-! ### The layers are good -/

theorem part_intersperse {sep : Separator} {mark : List Char} (hmark : sep.Part mark)
    {parts : List (List Char)} (h : ∀ p ∈ parts, sep.Part p) :
    ∀ p ∈ parts.intersperse mark, sep.Part p := by
  induction parts with
  | nil => exact h
  | cons part parts ih =>
    cases parts with
    | nil => exact h
    | cons next parts =>
      rw [List.forall_mem_cons] at h
      rw [List.intersperse_cons_cons, List.forall_mem_cons, List.forall_mem_cons]
      exact ⟨h.1, hmark, ih h.2⟩

theorem part_wrapped {text : List Char} (h : Solid text) : Separator.blank.Part (wrapped text) :=
  ⟨List.cons_ne_nil _ _, Bracket.whole_around (by simpa using h.part .comma)⟩

theorem BoolOperator.part_spelling (op : BoolOperator) : Separator.blank.Part op.spelling.toList := by
  cases op <;> exact ⟨by decide, rfl⟩

theorem CmpOperator.part_chars {op : CmpOperator} (h : op ≠ .isIn) (h' : op ≠ .notIn) :
    Separator.blank.Part op.chars := by
  cases op with
  | isIn => exact absurd rfl h
  | notIn => exact absurd rfl h'
  | _ => exact ⟨by decide, rfl⟩

theorem BinaryOperator.part_chars {op : BinaryOperator} (h : op ≠ .matMult) (h' : op ≠ .floorDiv) :
    Separator.blank.Part op.chars := by
  cases op with
  | matMult => exact absurd rfl h
  | floorDiv => exact absurd rfl h'
  | _ => exact ⟨by decide, rfl⟩

theorem part_slash : Separator.blank.Part ['/'] := ⟨by decide, rfl⟩

theorem BinaryOperator.part_parts {op : BinaryOperator} (h : op ≠ .matMult) {left right : List Char}
    (hleft : Solid left) (hright : Solid right) : ∀ p ∈ op.parts left right, Separator.blank.Part p := by
  unfold parts
  split
  · have hfloor : Whole Separator.blank.stops "Math.floor".toList := rfl
    have hinner : ∀ p ∈ [left, ['/'], right], Separator.blank.Part p := by
      simp [hleft.part, hright.part, part_slash]
    rw [List.forall_mem_singleton]
    exact ⟨by simp, hfloor.append (Bracket.whole_around hinner)⟩
  · rename_i hop
    simp [hleft.part, hright.part, op.part_chars h hop]

theorem UnaryOperator.part_spelling (op : UnaryOperator) {operand : List Char} (h : Solid operand) :
    Separator.blank.Part (op.spelling.toList ++ operand) := by
  have hop : Whole Separator.blank.stops op.spelling.toList := by cases op <;> rfl
  exact ⟨List.append_ne_nil_of_right_ne_nil _ h.ne_nil, hop.append (h.part .blank).2⟩

theorem Params.good_formals {params : Params (List Char)}
    (hnames : ∀ param ∈ params.positional ++ params.rest.toList, isIdentifier param.name.toList = true)
    (hdefaults : ∀ d ∈ params.defaults, Solid d) : ∀ x ∈ params.formals, x.Good := by
  intro x hx
  rcases List.mem_append.mp hx with hx | hx
  · obtain ⟨i, hi, rfl⟩ := List.mem_mapIdx.mp hx
    have hname := hnames _ (List.mem_append_left _ (List.getElem_mem hi))
    unfold formal
    split
    · exact hname
    · rename_i value hvalue
      obtain ⟨j, -, hj⟩ := Option.bind_eq_some_iff.mp hvalue
      exact ⟨hname, hdefaults value (List.mem_of_getElem? hj)⟩
  · obtain ⟨param, hparam, rfl⟩ := List.mem_map.mp hx
    exact hnames param (List.mem_append_right _ hparam)

theorem part_choice {test body orelse : List Char} (htest : Solid test) (hbody : Solid body)
    (horelse : Solid orelse) :
    ∀ p ∈ [wrapped test, ['?'], wrapped body, [':'], wrapped orelse], Separator.blank.Part p := by
  have hquestion : Separator.blank.Part ['?'] := ⟨by decide, rfl⟩
  have hcolon : Separator.blank.Part [':'] := ⟨by decide, rfl⟩
  simp [part_wrapped htest, part_wrapped hbody, part_wrapped horelse, hquestion, hcolon]

theorem part_arrow {formals : List Formal} {body : List Char} (hformals : ∀ x ∈ formals, x.Good)
    (hbody : Solid body) :
    ∀ p ∈ [Bracket.round.around .comma (formals.map Formal.text), ['=', '>'], wrapped body],
      Separator.blank.Part p := by
  have hparams : Separator.blank.Part (Bracket.round.around .comma (formals.map Formal.text)) :=
    ⟨List.cons_ne_nil _ _,
      Bracket.whole_around (List.forall_mem_map.mpr fun x hx => Formal.part (hformals x hx))⟩
  have harrow : Separator.blank.Part ['=', '>'] := ⟨by decide, rfl⟩
  simp [hparams, harrow, part_wrapped hbody]

theorem exists_key {keys : List (Option Expr)} {values : List (List Char)}
    {entry : Option (List Char) × List Char} (h : entry ∈ (keys.map (Option.map Expr.chars)).zip values)
    {key : List Char} (hkey : key ∈ entry.1) : ∃ k, some k ∈ keys ∧ k.chars = key := by
  obtain ⟨o, ho, hsame⟩ := List.mem_map.mp (List.of_mem_zip h).1
  rw [← hsame] at hkey
  obtain ⟨k, rfl, rfl⟩ := Option.map_eq_some_iff.mp hkey
  exact ⟨k, ho, rfl⟩

namespace Expr.Readable

variable {p : Standing} {e : Expr}

theorem layer_ne_spread (h : e.Readable .alone) (rest : List Char) :
    (e.form.map Expr.chars).layer ≠ .spread rest := by
  cases h <;> nofun

theorem solid_of_good (h : e.Readable .alone) (hgood : (e.form.map Expr.chars).layer.Good) :
    Solid e.chars := by
  rw [e.chars_eq]
  exact Layer.solid hgood h.layer_ne_spread

/-- The layer of a readable expression is made of whole texts. -/
theorem good_layer (h : e.Readable p) : (e.form.map Expr.chars).layer.Good := by
  have hlist : ∀ {es : List Expr}, (∀ e ∈ es, (e.form.map Expr.chars).layer.Good) →
      ∀ t ∈ es.map Expr.chars, Separator.comma.Part t := by
    intro es hes
    rw [List.forall_mem_map]
    intro e he
    rw [e.chars_eq]
    exact Layer.part (hes e he) .comma
  induction h with
  | name h => exact isWordChar_of_isIdentifier (Bool.and_eq_true_iff.mp h).1
  | constant h => exact Constant.good_stem h
  | «attribute» hvalue hattr ih =>
    exact ⟨hvalue.solid_of_good ih, (isWordChar_of_isIdentifier hattr).2⟩
  | subscript hvalue hindex ih ih' =>
    refine ⟨hvalue.solid_of_good ih, by decide, ?_⟩
    simpa using (hindex.solid_of_good ih').part .comma
  | call hfunc hargs ih ihs => exact ⟨hfunc.solid_of_good ih, by decide, hlist ihs⟩
  | binOp hop hleft hright ih ih' =>
    exact BinaryOperator.part_parts hop (hleft.solid_of_good ih) (hright.solid_of_good ih')
  | unaryOp hoperand ih =>
    exact List.forall_mem_singleton.mpr (UnaryOperator.part_spelling _ (hoperand.solid_of_good ih))
  | boolOp hlength hvalues ihs =>
    refine part_intersperse (BoolOperator.part_spelling _) (List.forall_mem_map.mpr fun v hv => ?_)
    exact ((hvalues v hv).solid_of_good (ihs v hv)).part .blank
  | @compare _ _ left op comparators hop hop' hleft hothers ih ihs =>
    have hcomparators : ∀ t ∈ comparators.map Expr.chars, Separator.blank.Part t :=
      List.forall_mem_map.mpr fun c hc => ((hothers c hc).solid_of_good (ihs c hc)).part .blank
    exact List.forall_mem_cons.mpr ⟨(hleft.solid_of_good ih).part .blank,
      List.forall_mem_cons.mpr ⟨CmpOperator.part_chars hop hop', hcomparators⟩⟩
  | ifExp htest hbody horelse ih ih' ih'' =>
    exact part_choice (htest.solid_of_good ih) (hbody.solid_of_good ih') (horelse.solid_of_good ih'')
  | list helts ihs => exact hlist ihs
  | @dict _ _ keys values hlength hkeys hvalues ihs ihs' =>
    refine List.forall_mem_map.mpr fun entry hentry => part_entryText ?_ ?_
    · intro key hkey
      obtain ⟨k, hk, rfl⟩ := exists_key hentry hkey
      exact (hkeys k hk).solid_of_good (ihs k hk)
    · obtain ⟨v, hv, hvalue⟩ := List.mem_map.mp (List.of_mem_zip hentry).2
      rw [← hvalue]
      exact (hvalues v hv).solid_of_good (ihs' v hv)
  | lambda hnames hlength hdefaults hbody ihs ih =>
    refine part_arrow (Params.good_formals hnames ?_) (hbody.solid_of_good ih)
    exact List.forall_mem_map.mpr fun d hd => (hdefaults d hd).solid_of_good (ihs d hd)
  | starred hvalue ih => exact hvalue.solid_of_good ih

theorem solid (h : e.Readable .alone) : Solid e.chars := h.solid_of_good h.good_layer

end Expr.Readable

end ScriptTree
