/-
  ScriptTree/Proofs/DoubledSigns.lean
  ===================================
  **Signs that meet.**  Two minus signs in a row are a decrement in the script and two plus signs an
  increment, unless they stand in a string (`Doubles`); what a string is depends on how it is read
  (`Quoting`).  Where texts are put next to each other, signs meet only if the one text ends with a
  sign and the other begins with it (`doubles_append`), and a text of other characters between them
  keeps them apart (`Guard`).

  What a rule writes is mostly texts of expressions with guards between them.  `Woven` says so and
  names the expressions, and then signs meet in the whole if and only if they meet in the text of one
  of them (`Woven.doubles_iff`).  The numbers among the constants are written in this way too.
-/
import ScriptTree.Proofs.Nesting

namespace ScriptTree

/-! ### Two signs in a row -/

/-- The end of the text lies outside of all strings. -/
def Unquoted (q : Quoting) (text : List Char) : Prop := reads (Mode.next q) .code text = some .code

/-- The sign stands twice in a row, outside of all strings. -/
def Doubles (q : Quoting) (sign : Char) (text : List Char) : Prop :=
  ∃ front back, text = front ++ sign :: sign :: back ∧ Unquoted q front

/-- The signs that become another operator when they are doubled. -/
def IsSign (c : Char) : Prop := c = '+' ∨ c = '-'

instance (q : Quoting) (text : List Char) : Decidable (Unquoted q text) :=
  inferInstanceAs (Decidable (_ = _))

variable {q : Quoting}

section Texts

variable {sign : Char} {a b : List Char}

theorem IsSign.ne_quote (h : IsSign sign) : sign ≠ '"' := by
  rcases h with rfl | rfl <;> decide

theorem unquoted_append (ha : Unquoted q a) : Unquoted q (a ++ b) ↔ Unquoted q b := by
  unfold Unquoted at ha ⊢
  rw [reads_append, ha]
  rfl

theorem unquoted_of_not_mem (h : '"' ∉ a) : Unquoted q a := by
  refine reads_of_forall fun c hc => Mode.next_code ?_
  rintro rfl
  exact h hc

/-- What stands before a character that is no quote and outside of all strings is outside of them
    too. -/
theorem Unquoted.of_concat {c : Char} (hc : c ≠ '"') (h : Unquoted q (a ++ [c])) : Unquoted q a := by
  rw [Unquoted, reads_append] at h
  obtain ⟨m, hm, hlast⟩ := Option.bind_eq_some_iff.mp h
  rw [reads_cons] at hlast
  obtain ⟨n, hn, hcode⟩ := Option.bind_eq_some_iff.mp hlast
  obtain rfl : n = .code := Option.some.inj hcode
  rw [Unquoted, hm, Mode.eq_code_of_next hc hn]

/-- Signs q meet in the one text, in the other, or between the two. -/
theorem doubles_append (hsign : IsSign sign) (ha : Unquoted q a) :
    Doubles q sign (a ++ b) ↔
      Doubles q sign a ∨ a.getLast? = some sign ∧ b.head? = some sign ∨ Doubles q sign b := by
  constructor
  · rintro ⟨front, back, heq, hfront⟩
    rcases List.append_eq_append_iff.mp heq with ⟨more, rfl, rfl⟩ | ⟨more, rfl, hback⟩
    · exact Or.inr (Or.inr ⟨more, back, rfl, (unquoted_append ha).mp hfront⟩)
    · -- the first text ends before, between or behind the two signs
      rcases more with _ | ⟨c, _ | ⟨d, more⟩⟩
      · exact Or.inr (Or.inr ⟨[], back, hback.symm, rfl⟩)
      · obtain ⟨rfl, rfl⟩ := List.cons.inj hback
        exact Or.inr (Or.inl ⟨List.getLast?_concat, rfl⟩)
      · simp only [List.cons_append, List.cons.injEq] at hback
        obtain ⟨rfl, rfl, -⟩ := hback
        exact Or.inl ⟨front, more, rfl, hfront⟩
  · rintro (⟨front, back, rfl, hfront⟩ | ⟨hlast, hhead⟩ | ⟨front, back, rfl, hfront⟩)
    · exact ⟨front, back ++ b, by simp, hfront⟩
    · obtain ⟨front, rfl⟩ := List.getLast?_eq_some_iff.mp hlast
      obtain ⟨back, rfl⟩ := List.head?_eq_some_iff.mp hhead
      exact ⟨front, back, by simp, ha.of_concat hsign.ne_quote⟩
    · exact ⟨a ++ front, back, by simp, (unquoted_append ha).mpr hfront⟩

end Texts

/-! ### Texts without signs -/

/-- Neither a quote nor a sign. -/
def isPlain (c : Char) : Bool := c ≠ '"' && c ≠ '+' && c ≠ '-'

def Plainly (text : String) : Prop := ∀ c ∈ text.toList, isPlain c = true

instance (text : String) : Decidable (Plainly text) :=
  decidable_of_iff (text.toList.all isPlain = true) List.all_eq_true

/-- A text that keeps its neighbours apart. -/
def Guard (text : String) : Prop := text.toList ≠ [] ∧ Plainly text

instance (text : String) : Decidable (Guard text) := inferInstanceAs (Decidable (_ ∧ _))

/-- A text in which no signs meet. -/
def Still (q : Quoting) (text : String) : Prop :=
  Unquoted q text.toList ∧ ∀ sign, IsSign sign → ¬Doubles q sign text.toList

/-- A text that does not begin with a sign. -/
def Unsigned (text : String) : Prop := ∀ sign, IsSign sign → text.toList.head? ≠ some sign

section Plain

variable {sign : Char} {a b g : String}

theorem ne_of_isPlain {c : Char} (hc : isPlain c = true) (hsign : IsSign sign) : c ≠ sign := by
  rintro rfl
  rcases hsign with rfl | rfl <;> exact absurd hc (by decide)

theorem Plainly.append (ha : Plainly a) (hb : Plainly b) : Plainly (a ++ b) := by
  intro c hc
  rw [String.toList_append] at hc
  rcases List.mem_append.mp hc with hc | hc
  · exact ha c hc
  · exact hb c hc

theorem Plainly.unquoted (h : Plainly a) : Unquoted q a.toList :=
  unquoted_of_not_mem fun hmem => absurd (h '"' hmem) (by decide)

theorem Plainly.unsigned (h : Plainly a) : Unsigned a := fun _ hsign hhead =>
  ne_of_isPlain (h _ (List.mem_of_mem_head? hhead)) hsign rfl

theorem Plainly.still (h : Plainly a) : Still q a := by
  refine ⟨h.unquoted, ?_⟩
  rintro sign hsign ⟨front, back, heq, -⟩
  exact ne_of_isPlain (h sign (by simp [heq])) hsign rfl

theorem still_of_length_le_one (hlength : a.toList.length ≤ 1) (h : '"' ∉ a.toList) : Still q a := by
  refine ⟨unquoted_of_not_mem h, ?_⟩
  rintro sign - ⟨front, back, heq, -⟩
  rw [heq] at hlength
  simp at hlength
  omega

/-- A guard hides what follows it from what stands before it. -/
theorem head_append_guard (hg : Guard g) (hsign : IsSign sign) :
    (a ++ g ++ b).toList.head? = some sign ↔ a.toList.head? = some sign := by
  have hguard := hg.2.unsigned sign hsign
  rw [String.toList_append, String.toList_append]
  cases ha : a.toList with
  | nil => simp [List.head?_append_of_ne_nil _ hg.1, hguard]
  | cons c rest => rfl

theorem Guard.unsigned_of_prefix (hg : Guard g) (h : g.toList <+: a.toList) : Unsigned a := by
  intro sign hsign
  obtain ⟨rest, hrest⟩ := h
  rw [← hrest, List.head?_append_of_ne_nil _ hg.1]
  exact hg.2.unsigned sign hsign

theorem doubles_append_guard (hsign : IsSign sign) (ha : Unquoted q a.toList) (hg : Guard g) :
    Doubles q sign (a ++ g ++ b).toList ↔ Doubles q sign a.toList ∨ Doubles q sign b.toList := by
  have hlast : g.toList.getLast? ≠ some sign := by
    intro hlast
    exact ne_of_isPlain (hg.2 sign (List.mem_of_getLast? hlast)) hsign rfl
  have hhead : (g.toList ++ b.toList).head? ≠ some sign := by
    rw [List.head?_append_of_ne_nil _ hg.1]
    exact hg.2.unsigned sign hsign
  rw [String.toList_append, String.toList_append, List.append_assoc, doubles_append hsign ha,
    doubles_append hsign hg.2.unquoted]
  simp only [hlast, hhead, hg.2.still.2 sign hsign, false_and, and_false, false_or]

theorem unquoted_append_guard (ha : Unquoted q a.toList) (hg : Guard g) (hb : Unquoted q b.toList) :
    Unquoted q (a ++ g ++ b).toList := by
  rw [String.toList_append, String.toList_append, List.append_assoc, unquoted_append ha,
    unquoted_append hg.2.unquoted]
  exact hb

theorem Still.append_guard (ha : Still q a) (hg : Guard g) (hb : Still q b) : Still q (a ++ g ++ b) := by
  refine ⟨unquoted_append_guard ha.1 hg hb.1, fun sign hsign => ?_⟩
  rw [doubles_append_guard hsign ha.1 hg, not_or]
  exact ⟨ha.2 sign hsign, hb.2 sign hsign⟩

/-- A minus sign in front of a text that does not begin with one. -/
theorem Still.negated (h : Still q a) (hhead : Unsigned a) : Still q ("-" ++ a) := by
  have hsingle : Still q "-" := still_of_length_le_one (by decide) (by decide)
  refine ⟨?_, fun sign hsign => ?_⟩
  · rw [String.toList_append, unquoted_append hsingle.1]
    exact h.1
  · rw [String.toList_append, doubles_append hsign hsingle.1]
    simp only [h.2 sign hsign, hsingle.2 sign hsign, hhead sign hsign, and_false, or_false,
      not_false_iff]

end Plain

/-! ### Woven q texts -/

/-- A text of the parts that are named, in which guards keep them apart from each other and from what
    else there is. -/
inductive Woven (q : Quoting) {ε : Type} (gives : ε → String → Prop) : List ε → String → Prop
  | still {t : String} : Still q t → Woven q gives [] t
  | part {e : ε} {t : String} : gives e t → Woven q gives [e] t
  | append {es ds : List ε} {a g b : String} : Woven q gives es a → Guard g → Woven q gives ds b →
      Woven q gives (es ++ ds) (a ++ g ++ b)

namespace Woven

variable {ε γ : Type} {gives : ε → String → Prop} {es ds : List ε} {a b g t : String}

theorem plain (h : Plainly t) : Woven q gives [] t := .still h.still

theorem after (h : Woven q gives es a) (hg : Guard g) : Woven q gives es (a ++ g) := by
  have hempty : Woven q gives [] "" := plain (by decide)
  simpa using h.append hg hempty

theorem before (hg : Guard g) (h : Woven q gives es b) : Woven q gives es (g ++ b) := by
  have hempty : Woven q gives [] "" := plain (by decide)
  simpa using hempty.append hg h

/-- Woven q texts in a row, with guards between them. -/
theorem intercalate (hg : Guard g) {f : γ → List ε} {xs : List γ} {ts : List String}
    (h : List.Forall₂ (fun x => Woven q gives (f x)) xs ts) :
    Woven q gives (xs.flatMap f) (g.intercalate ts) := by
  induction h with
  | nil =>
    rw [String.intercalate_nil]
    exact plain (by decide)
  | @cons x t xs ts hx hxs ih =>
    rw [List.flatMap_cons]
    cases hxs with
    | nil => simpa using hx
    | cons =>
      rw [String.intercalate_cons_cons]
      exact hx.append hg ih

theorem unquoted (h : Woven q gives es t)
    (hes : ∀ e ∈ es, ∀ u, gives e u → Unquoted q u.toList) : Unquoted q t.toList := by
  induction h with
  | still h => exact h.1
  | part h => exact hes _ List.mem_cons_self _ h
  | append _ hg _ iha ihb =>
    obtain ⟨ha, hb⟩ := List.forall_mem_append.mp hes
    exact unquoted_append_guard (iha ha) hg (ihb hb)

/-- Signs q meet in a woven text if and only if they meet in one of its parts. -/
theorem doubles_iff {sign : Char} (hsign : IsSign sign) (h : Woven q gives es t) {P : ε → Prop}
    (hunquoted : ∀ e ∈ es, ∀ u, gives e u → Unquoted q u.toList)
    (hparts : ∀ e ∈ es, ∀ u, gives e u → (Doubles q sign u.toList ↔ P e)) :
    Doubles q sign t.toList ↔ ∃ e ∈ es, P e := by
  induction h with
  | still h => simp [h.2 sign hsign]
  | part h => simp [hparts _ List.mem_cons_self _ h]
  | append ha hg _ iha ihb =>
    obtain ⟨hua, hub⟩ := List.forall_mem_append.mp hunquoted
    obtain ⟨hpa, hpb⟩ := List.forall_mem_append.mp hparts
    rw [doubles_append_guard hsign (ha.unquoted hua) hg, iha hua hpa, ihb hub hpb]
    simp only [List.mem_append, or_and_right, exists_or]

/-- The text of a part stands in the whole text. -/
theorem exists_infix (h : Woven q gives es t) : ∀ e ∈ es, ∃ u, gives e u ∧ u.toList <:+: t.toList := by
  induction h with
  | still => exact List.forall_mem_nil _
  | part h => exact List.forall_mem_singleton.mpr ⟨_, h, List.infix_rfl⟩
  | @append es ds a g b _ _ _ iha ihb =>
    rw [String.toList_append, String.toList_append]
    refine List.forall_mem_append.mpr ⟨fun e he => ?_, fun e he => ?_⟩
    · obtain ⟨u, hu, hin⟩ := iha e he
      exact ⟨u, hu, hin.trans (List.prefix_append_of_prefix (List.prefix_append _ _)).isInfix⟩
    · obtain ⟨u, hu, hin⟩ := ihb e he
      exact ⟨u, hu, hin.trans (List.suffix_append _ _).isInfix⟩

end Woven

/-! ### Constants -/

/-- Whether a constant is a number with a minus sign, negative zero and infinity included. -/
def Constant.isNegative : Constant → Bool
  | .int n => n.toInt < 0
  | .float x => Decimal.isNegative x.toBits &&
      !(Decimal.exponentField x.toBits == 2047 && Decimal.fractionField x.toBits != 0)
  | .null | .bool _ | .str _ => false

theorem plainly_of_digits {ds : List Char} (h : ∀ c ∈ ds, c.isDigit = true) :
    Plainly (String.ofList ds) := by
  intro c hc
  rw [String.toList_ofList] at hc
  have hdigit := h c hc
  have hother : ∀ d : Char, d.isDigit = false → c ≠ d := by
    rintro d hd rfl
    rw [hdigit] at hd
    cases hd
  simp [isPlain, hother '"' rfl, hother '+' rfl, hother '-' rfl]

theorem plainly_natText (n : Nat) : Plainly (Decimal.natText n) :=
  plainly_of_digits fun _ => Nat.isDigit_of_mem_toDigits (by decide) (by decide)

/-- A text that is a minus sign, if there is one, and a text without one in front. -/
def Signs (q : Quoting) (negative : Bool) (text : String) : Prop :=
  ∃ t, text = (if negative then "-" else "") ++ t ∧ Still q t ∧ Unsigned t

theorem Plainly.signs {t : String} (h : Plainly t) : Signs q false t := ⟨t, by simp, h.still, h.unsigned⟩

section Signs

variable {negative : Bool} {text : String} (h : Signs q negative text)

include h

theorem Signs.still : Still q text := by
  obtain ⟨t, rfl, hstill, hunsigned⟩ := h
  cases negative with
  | true => exact hstill.negated hunsigned
  | false => simpa using hstill

theorem Signs.head_plus : text.toList.head? ≠ some '+' := by
  obtain ⟨t, rfl, -, hunsigned⟩ := h
  cases negative with
  | true => simp
  | false => simpa using hunsigned '+' (Or.inl rfl)

theorem Signs.head_minus : text.toList.head? = some '-' ↔ negative = true := by
  obtain ⟨t, rfl, -, hunsigned⟩ := h
  cases negative with
  | true => simp
  | false => simpa using hunsigned '-' (Or.inr rfl)

end Signs

theorem signs_intText (n : Int) : Signs q (n < 0) (Decimal.intText n) := by
  have hdigits := plainly_natText n.natAbs
  refine ⟨_, ?_, hdigits.still, hdigits.unsigned⟩
  unfold Decimal.intText
  by_cases hn : n < 0
  · simp [hn]
  · simp [hn]

theorem plainly_positional {ds : List Char} (h : ∀ c ∈ ds, c.isDigit = true) (p : Int) :
    Plainly (Decimal.positional ds p) := by
  intro c hc
  rcases Decimal.mem_positional hc with hc | rfl | rfl
  · exact plainly_of_digits h c (by rwa [String.toList_ofList])
  · decide
  · decide

theorem signs_scientific {ds : List Char} (h : ∀ c ∈ ds, c.isDigit = true) (p : Int) :
    Signs q false (scriptFloat.scientific ds p) := by
  have htake := plainly_of_digits fun c hc => h c (List.mem_of_mem_take (i := 1) hc)
  have hdrop := plainly_of_digits fun c hc => h c (List.mem_of_mem_drop (i := 1) hc)
  have hpoint : Plainly "." := by decide
  have hfraction : Plainly
      (if (ds.drop 1).isEmpty then "" else "." ++ String.ofList (ds.drop 1)) := by
    split
    · decide
    · exact hpoint.append hdrop
  have hmantissa := htake.append hfraction
  have hmark : Guard "e" := by decide
  have hexponent : Still q (Decimal.intText (p - 1)) := (signs_intText (p - 1)).still
  -- no sign stands before an exponent that is not negative
  have hsign : (if p - 1 < 0 then "" else scriptFloat.exponentSign) = "" := by
    split <;> rfl
  refine ⟨_, (String.empty_append).symm, ?_, fun sign hs => ?_⟩
  · rw [Decimal.Layout.scientific, hsign, String.append_empty]
    exact hmantissa.still.append_guard hmark hexponent
  · rw [Decimal.Layout.scientific, hsign, String.append_empty, Ne, head_append_guard hmark hs]
    exact hmantissa.unsigned sign hs

theorem signs_digitsText (d : Decimal.Digits) : Signs q false (scriptFloat.digitsText d) := by
  have hdigits : ∀ c ∈ Nat.toDigits 10 d.digits, c.isDigit = true := fun c =>
    Nat.isDigit_of_mem_toDigits (by decide) (by decide)
  unfold Decimal.Layout.digitsText
  dsimp only
  split
  · exact (plainly_positional hdigits _).signs
  · exact signs_scientific hdigits _

theorem signs_float (x : Float) : Signs q (Constant.float x).isNegative (scriptFloat.text x) := by
  have hword : ∀ word, Plainly word → Signs q true ("-" ++ word) := fun word h =>
    ⟨word, rfl, h.still, h.unsigned⟩
  unfold Decimal.Layout.text Decimal.Layout.bitsText Constant.isNegative
  by_cases hspecial : Decimal.exponentField x.toBits = 2047
  · rw [if_pos hspecial]
    by_cases hfraction : Decimal.fractionField x.toBits = 0
    · by_cases hnegative : Decimal.isNegative x.toBits = true
      · simpa [hspecial, hfraction, hnegative, scriptFloat] using hword "Infinity" (by decide)
      · have hinfinity : Plainly "Infinity" := by decide
        simpa [hspecial, hfraction, hnegative, scriptFloat] using hinfinity.signs
    · have hnan : Plainly "NaN" := by decide
      have hset : (Decimal.fractionField x.toBits != 0) = true := bne_iff_ne.mpr hfraction
      simpa [hspecial, hfraction, hset, scriptFloat] using hnan.signs
  · have hmagnitude : Signs q false (if (Decimal.Binary.ofBits x.toBits).significand = 0 then "0.0"
        else scriptFloat.digitsText ((Decimal.Binary.ofBits x.toBits).shortest scriptFloat.tie)) := by
      split
      · have hzero : Plainly "0.0" := by decide
        exact hzero.signs
      · exact signs_digitsText _
    obtain ⟨t, ht, hstill, hunsigned⟩ := hmagnitude
    rw [if_neg hspecial]
    refine ⟨t, ?_, hstill, hunsigned⟩
    simp [hspecial, ht]

theorem signs_doubleQuoted {s : String} (h : q.Admits s.toList) : Signs q false (doubleQuoted s) := by
  have htext : (doubleQuoted s).toList = '"' :: (s.toList ++ ['"']) := by simp [doubleQuoted]
  have hend : Mode.quoted.next q '"' = some .code := by cases q <;> rfl
  refine ⟨_, (String.empty_append).symm, ⟨?_, ?_⟩, ?_⟩
  · rw [htext, Unquoted, reads_cons]
    change reads (Mode.next q) .quoted (s.toList ++ ['"']) = some .code
    rw [reads_append, Mode.reads_quoted h, Option.bind_some, reads_cons, hend]
    rfl
  · rintro sign hsign ⟨front, back, heq, hfront⟩
    rw [htext] at heq
    -- only the quote that opens the string can stand before the signs
    rcases front with _ | ⟨c, front⟩
    · exact hsign.ne_quote (List.cons.inj heq).1.symm
    · simp only [List.cons_append, List.cons.injEq] at heq
      obtain ⟨rfl, heq⟩ := heq
      rcases List.append_eq_append_iff.mp heq with ⟨more, rfl, hback⟩ | ⟨more, hs, -⟩
      · rcases more with _ | ⟨d, more⟩
        · exact hsign.ne_quote (List.cons.inj hback).1.symm
        · simp at hback
      · have hinside : q.Admits front := fun c hc => h c (hs ▸ List.mem_append_left _ hc)
        rw [Unquoted, reads_cons] at hfront
        have hquoted := (Mode.reads_quoted hinside).symm.trans hfront
        cases hquoted
  · intro sign hsign hhead
    rw [htext] at hhead
    exact hsign.ne_quote (Option.some.inj hhead).symm

/-- The text of a constant begins with a minus sign if the constant is negative, and no signs meet
    in it. -/
theorem Constant.signs_spelling {value : Constant} (h : ∀ s, value = .str s → q.Admits s.toList) :
    Signs q value.isNegative value.spelling := by
  cases value with
  | null =>
    have hword : Plainly "null" := by decide
    exact hword.signs
  | bool b =>
    have hwords : ∀ b : Bool, Plainly (if b then "true" else "false") := by decide
    exact (hwords b).signs
  | int n => exact signs_intText n.toInt
  | float x => exact signs_float x
  | str s => exact signs_doubleQuoted (h s rfl)

/-! ### Operators -/

theorem BinaryOperator.still_spell {op : BinaryOperator} {sign : String} (h : op.spell = .ok sign) :
    Still q sign := by
  have hsingle : ∀ s : String, s.toList.length ≤ 1 → '"' ∉ s.toList → Still q s :=
    fun s => still_of_length_le_one
  have hplain : ∀ s : String, Plainly s → Still q s := fun s => Plainly.still
  cases op with
  | pow | leftShift | rightShift =>
    cases h
    exact hplain _ (by decide)
  | matMult | floorDiv => cases h
  | _ =>
    cases h
    exact hsingle _ (by decide) (by decide)

theorem CmpOperator.plainly_spell {op : CmpOperator} {sign : String} (h : op.spell = .ok sign) :
    Plainly sign := by
  cases op <;> cases h <;> decide

section Unary

variable (op : UnaryOperator) {sign : Char} {t : String} (ht : Unquoted q t.toList)

theorem UnaryOperator.length_spelling : op.spelling.toList.length = 1 := by
  cases op <;> rfl

theorem UnaryOperator.still_spelling : Still q op.spelling := by
  refine still_of_length_le_one (Nat.le_of_eq op.length_spelling) ?_
  cases op <;> decide

include ht

theorem unquoted_unaryOp : Unquoted q ("(" ++ op.spelling ++ t ++ ")").toList := by
  have hclosing : Unquoted q ")".toList := rfl
  have hopening : Unquoted q "(".toList := rfl
  rw [String.toList_append, String.toList_append, String.toList_append, List.append_assoc,
    List.append_assoc, unquoted_append hopening, unquoted_append op.still_spelling.1,
    unquoted_append ht]
  exact hclosing

/-- Behind an operator of one operand, signs meet if the operand begins with the same one. -/
theorem doubles_unaryOp (hsign : IsSign sign) :
    Doubles q sign ("(" ++ op.spelling ++ t ++ ")").toList ↔
      op.spelling.toList = [sign] ∧ t.toList.head? = some sign ∨ Doubles q sign t.toList := by
  have hopening : Guard "(" := by decide
  have hclosing : Guard ")" := by decide
  have hassoc : "(" ++ op.spelling ++ t ++ ")" = "(" ++ (op.spelling ++ t) ++ ")" := by
    simp only [String.append_assoc]
  have hwoven : Woven q (· = ·) [op.spelling ++ t] ("(" ++ (op.spelling ++ t) ++ ")") :=
    (Woven.before hopening (.part rfl)).after hclosing
  have hunquoted : Unquoted q (op.spelling ++ t).toList := by
    rwa [String.toList_append, unquoted_append op.still_spelling.1]
  have hlast : op.spelling.toList.getLast? = some sign ↔ op.spelling.toList = [sign] := by
    obtain ⟨c, hc⟩ := List.length_eq_one_iff.mp op.length_spelling
    simp [hc]
  have hbrackets := hwoven.doubles_iff hsign (P := fun u => Doubles q sign u.toList)
    (List.forall_mem_singleton.mpr fun u hu => hu ▸ hunquoted)
    (List.forall_mem_singleton.mpr fun u hu => by rw [← hu])
  rw [hassoc, hbrackets]
  simp only [List.mem_singleton, exists_eq_left]
  rw [String.toList_append, doubles_append hsign op.still_spelling.1, hlast]
  simp only [op.still_spelling.2 sign hsign, false_or]

end Unary

end ScriptTree
