/-
  ScriptTree/Proofs/Nesting.lean
  ==============================
  **Brackets that nest.**  A reader of script text keeps the brackets that are open and knows whether
  a string is open (`Cursor`).  A closing bracket must match the innermost open one; brackets in
  strings do not count.  A strict reader is stopped by blanks, commas and semicolons outside of all
  brackets too (`isLoose`).

  What a rule writes is followed piece by piece (`Scans`), so that brackets may be opened in one piece
  and closed in another.  The texts of expressions lead a strict reader back to where it was
  (`Sealed`); inside of brackets this also holds of lists of them (`Enclosed`), and for a reader who is
  not strict it holds of statements too (`Matched`).  All of this holds for both ways to read strings,
  if what stands in them means itself (`Quoting.Admits`).
-/
import ScriptTree.Proofs.ExprLayers

namespace ScriptTree

/-! ### Reading script text -/

/-- White space, as in the Unicode property, and the byte order mark. -/
def whiteSpace : List Char :=
  ['\t', '\n', '\x0b', '\x0c', '\x0d', ' ', '\u0085', '\u00a0', '\u1680', '\u2000', '\u2001',
    '\u2002', '\u2003', '\u2004', '\u2005', '\u2006', '\u2007', '\u2008', '\u2009', '\u200a',
    '\u2028', '\u2029', '\u202f', '\u205f', '\u3000', '\ufeff']

/-- What would split an expression outside of brackets. -/
def isLoose (c : Char) : Bool := c = ',' || c = ';' || whiteSpace.contains c

/-- The brackets outside of strings match and nest. -/
def Nested (q : Quoting) (text : List Char) : Prop :=
  scan q freely (.code []) text = some (.code [])

/-- Nothing that could split the text stands outside of all brackets and strings. -/
def Unsplit (q : Quoting) (text : List Char) : Prop :=
  ∀ front c back, text = front ++ c :: back → scan q freely (.code []) front = some (.code []) →
    isLoose c = false

/-- Reading the text leads from one cursor to another. -/
def Scans (q : Quoting) (stops : Char → Bool) (s : Cursor) (text : String) (t : Cursor) : Prop :=
  scan q stops s text.toList = some t

/-- The text can stand anywhere. -/
def Sealed (q : Quoting) (text : String) : Prop :=
  ∀ opened, Scans q isLoose (.code opened) text (.code opened)

/-- The text can stand in brackets. -/
def Enclosed (q : Quoting) (text : String) : Prop :=
  ∀ b opened, Scans q isLoose (.code (b :: opened)) text (.code (b :: opened))

/-- The text can stand anywhere among statements. -/
def Matched (q : Quoting) (text : String) : Prop :=
  ∀ opened, Scans q freely (.code opened) text (.code opened)

variable {q : Quoting} {stops : Char → Bool} {s t u : Cursor} {a b : String}

theorem Scans.append (ha : Scans q stops s a t) (hb : Scans q stops t b u) :
    Scans q stops s (a ++ b) u := by
  unfold Scans scan at ha hb ⊢
  rw [String.toList_append, reads_append, ha]
  exact hb

theorem Sealed.enclosed (h : Sealed q a) : Enclosed q a := fun b opened => h (b :: opened)

theorem Enclosed.append (ha : Enclosed q a) (hb : Enclosed q b) : Enclosed q (a ++ b) :=
  fun c opened => (ha c opened).append (hb c opened)

theorem Matched.append (ha : Matched q a) (hb : Matched q b) : Matched q (a ++ b) :=
  fun opened => (ha opened).append (hb opened)

/-! ### A reader who is not strict reads further -/

theorem Sealed.matched (h : Sealed q a) : Matched q a := fun opened => scan_freely (h opened)

theorem Sealed.nested (h : Sealed q a) : Nested q a.toList := scan_freely (h [])

/-- Outside of all brackets a strict reader accepts nothing loose. -/
theorem Cursor.not_loose {c : Char} (h : (code []).next q isLoose c = some t) : isLoose c = false := by
  by_contra hloose
  rw [Bool.not_eq_false] at hloose
  have hmem : c ∈ [',', ';'] ++ whiteSpace := by
    simpa [isLoose, or_assoc] using hloose
  have hrefused : ([',', ';'] ++ whiteSpace).all fun c =>
      ((code []).openedBehind isLoose c).isNone := by decide
  have hnone := List.all_eq_true.mp hrefused c hmem
  rw [(Cursor.next_eq_some_iff.mp h).2] at hnone
  cases hnone

theorem Sealed.unsplit (h : Sealed q a) : Unsplit q a.toList := by
  intro front c back hsplit hfront
  have hscan : scan q isLoose (.code []) (front ++ c :: back) = some (.code []) := hsplit ▸ h []
  rw [scan, reads_append] at hscan
  obtain ⟨s, hs, hrest⟩ := Option.bind_eq_some_iff.mp hscan
  -- both readers are at the same place before the character
  obtain rfl : s = .code [] := Option.some.inj ((scan_freely hs).symm.trans hfront)
  rw [reads_cons] at hrest
  obtain ⟨t, ht, -⟩ := Option.bind_eq_some_iff.mp hrest
  exact Cursor.not_loose ht

/-! ### Words, numbers and strings -/

/-- What has a meaning to a strict reader. -/
def marks : List Char :=
  ['"', '(', ')', '[', ']', '\x7b', '\x7d', ',', ';'] ++ whiteSpace

/-- Any other character, such as a letter, a digit, `_` or `$`. -/
def isOrdinary (c : Char) : Bool := !marks.contains c

def Ordinary (text : List Char) : Prop := ∀ c ∈ text, isOrdinary c = true

instance (text : List Char) : Decidable (Ordinary text) :=
  decidable_of_iff (text.all isOrdinary = true) List.all_eq_true

theorem Cursor.next_isOrdinary {c : Char} (h : isOrdinary c = true) (opened : List Bracket) :
    (code opened).next q isLoose c = some (code opened) := by
  have hmark : ∀ d ∈ marks, d ≠ c := by
    rintro d hd rfl
    simp [isOrdinary, hd] at h
  have hloose : ∀ d, isLoose d = true → d ∈ marks := by
    intro d hd
    simp only [isLoose, Bool.or_eq_true, decide_eq_true_eq, List.contains_iff_mem] at hd
    rcases hd with (rfl | rfl) | hspace
    · decide
    · decide
    · exact List.mem_append_right _ hspace
  apply Cursor.next_ordinary (hmark '"' (by decide)).symm
  · exact fun b => hmark b.opening (by cases b <;> decide)
  · exact fun b => hmark b.closing (by cases b <;> decide)
  · exact Bool.eq_false_iff.mpr fun hc => hmark c (hloose c hc) rfl

theorem sealed_of_ordinary (h : Ordinary a.toList) : Sealed q a :=
  fun opened => reads_of_forall fun c hc => Cursor.next_isOrdinary (h c hc) opened

theorem isOrdinary_of_isAlphanum {c : Char} (h : c.isAlphanum = true) : isOrdinary c = true := by
  have hmarks : marks.all fun d => !d.isAlphanum := by decide
  unfold isOrdinary
  rw [Bool.not_eq_true', List.contains_eq_mem, decide_eq_false_iff_not]
  intro hmem
  have hmark := List.all_eq_true.mp hmarks c hmem
  rw [h] at hmark
  cases hmark

theorem isOrdinary_of_isDigit {c : Char} (h : c.isDigit = true) : isOrdinary c = true := by
  apply isOrdinary_of_isAlphanum
  rw [Char.isAlphanum, h, Bool.or_true]

theorem Ordinary.append {front back : List Char} (hfront : Ordinary front) (hback : Ordinary back) :
    Ordinary (front ++ back) := List.forall_mem_append.mpr ⟨hfront, hback⟩

theorem ordinary_toDigits (n : Nat) : Ordinary (Nat.toDigits 10 n) :=
  fun _ hc => isOrdinary_of_isDigit (Nat.isDigit_of_mem_toDigits (by decide) (by decide) hc)

theorem ordinary_intText (n : Int) : Ordinary (Decimal.intText n).toList := by
  intro c hc
  rcases Decimal.mem_intText hc with hdigit | rfl
  · exact isOrdinary_of_isDigit hdigit
  · decide

theorem Decimal.mem_positional {ds : List Char} {p : Int} {c : Char}
    (h : c ∈ (Decimal.positional ds p).toList) : c ∈ ds ∨ c = '0' ∨ c = '.' := by
  unfold Decimal.positional at h
  split at h
  · simp only [String.toList_append, String.toList_ofList, List.mem_append, List.mem_replicate] at h
    rcases h with h | ⟨-, rfl⟩ | h
    · exact Or.inr (by simpa using h)
    · exact Or.inr (Or.inl rfl)
    · exact Or.inl h
  split at h
  · simp only [String.toList_append, String.toList_ofList, List.mem_append, List.mem_replicate] at h
    rcases h with (h | ⟨-, rfl⟩) | h
    · exact Or.inl h
    · exact Or.inr (Or.inl rfl)
    · exact Or.inr (Or.symm (by simpa using h))
  · simp only [String.toList_append, String.toList_ofList, List.mem_append] at h
    rcases h with (h | h) | h
    · exact Or.inl (List.mem_of_mem_take h)
    · exact Or.inr (Or.inr (by simpa using h))
    · exact Or.inl (List.mem_of_mem_drop h)

theorem ordinary_positional {ds : List Char} (h : Ordinary ds) (p : Int) :
    Ordinary (Decimal.positional ds p).toList := by
  intro c hc
  rcases Decimal.mem_positional hc with hc | rfl | rfl
  · exact h c hc
  · decide
  · decide

theorem ordinary_scientific {ds : List Char} (h : Ordinary ds) (p : Int) :
    Ordinary (scriptFloat.scientific ds p).toList := by
  have htake : Ordinary (ds.take 1) := fun c hc => h c (List.mem_of_mem_take hc)
  have hdrop : Ordinary (ds.drop 1) := fun c hc => h c (List.mem_of_mem_drop hc)
  have hempty : Ordinary [] := List.forall_mem_nil _
  have hpoint : Ordinary ['.'] := by decide
  have hmark : Ordinary ['e'] := by decide
  have hexponent := ordinary_intText (p - 1)
  have hfraction : Ordinary
      (if (ds.drop 1).isEmpty then "" else "." ++ String.ofList (ds.drop 1)).toList := by
    split
    · exact hempty
    · simp only [String.toList_append, String.toList_ofList]
      exact hpoint.append hdrop
  have hsign : Ordinary (if p - 1 < 0 then "" else scriptFloat.exponentSign).toList := by
    split
    · exact hempty
    · exact hempty
  simp only [Decimal.Layout.scientific, String.toList_append, String.toList_ofList]
  exact (((htake.append hfraction).append hmark).append hsign).append hexponent

theorem ordinary_float (x : Float) : Ordinary (scriptFloat.text x).toList := by
  have hwords : ∀ word ∈ ["NaN", "Infinity", "-Infinity", "", "-", "0.0"], Ordinary word.toList := by
    decide
  unfold Decimal.Layout.text Decimal.Layout.bitsText
  split
  · split
    · exact hwords "NaN" (by simp)
    split
    · exact hwords "-Infinity" (by simp)
    · exact hwords "Infinity" (by simp)
  · rw [String.toList_append]
    apply Ordinary.append
    · split
      · exact hwords "-" (by simp)
      · exact hwords "" (by simp)
    · split
      · exact hwords "0.0" (by simp)
      · have hdigits := fun d : Decimal.Digits => ordinary_toDigits d.digits
        unfold Decimal.Layout.digitsText
        dsimp only
        split
        · exact ordinary_positional (hdigits _) _
        · exact ordinary_scientific (hdigits _) _

theorem sealed_doubleQuoted (h : q.Admits a.toList) : Sealed q (doubleQuoted a) := by
  intro opened
  have hopen : Scans q isLoose (.code opened) "\"" (.quoted opened) := rfl
  have hclose : Scans q isLoose (.quoted opened) "\"" (.code opened) := by cases q <;> rfl
  have htext : Scans q isLoose (.quoted opened) a (.quoted opened) := scan_quoted h opened
  exact (hopen.append htext).append hclose

theorem sealed_spelling {value : Constant} (h : ∀ s, value = .str s → q.Admits s.toList) :
    Sealed q value.spelling := by
  rcases value with _ | b | n | x | s
  · exact fun _ => rfl
  · cases b <;> exact fun _ => rfl
  · exact sealed_of_ordinary (ordinary_intText _)
  · exact sealed_of_ordinary (ordinary_float x)
  · exact sealed_doubleQuoted (h s rfl)

/-! ### What the rules for expressions write -/

/-- A property of the separator and of all texts that texts in a row have too. -/
theorem intercalate_of {P : String → Prop} (hempty : P "") (happend : ∀ a b, P a → P b → P (a ++ b))
    {separator : String} (hseparator : P separator) {texts : List String} (h : ∀ x ∈ texts, P x) :
    P (separator.intercalate texts) := by
  induction texts with
  | nil =>
    rw [String.intercalate_nil]
    exact hempty
  | cons x texts ih =>
    obtain ⟨hx, htexts⟩ := List.forall_mem_cons.mp h
    rcases texts with _ | ⟨y, texts⟩
    · rw [String.intercalate_singleton]
      exact hx
    · rw [String.intercalate_cons_cons]
      exact happend _ _ (happend _ _ hx hseparator) (ih htexts)

theorem enclosed_intercalate {separator : String} (hseparator : Enclosed q separator)
    {texts : List String} (h : ∀ x ∈ texts, Enclosed q x) : Enclosed q (separator.intercalate texts) :=
  intercalate_of (fun _ _ => rfl) (fun _ _ => Enclosed.append) hseparator h

theorem enclosed_commas {texts : List String} (h : ∀ x ∈ texts, Enclosed q x) :
    Enclosed q (", ".intercalate texts) := by
  have hcomma : Enclosed q ", " := fun _ _ => rfl
  exact enclosed_intercalate hcomma h

theorem Sealed.append (ha : Sealed q a) (hb : Sealed q b) : Sealed q (a ++ b) :=
  fun opened => (ha opened).append (hb opened)

/-- A text between two others of which one opens a bracket and the other closes it. -/
theorem sealed_around (bracket : Bracket) {front back : String} (h : Enclosed q a)
    (hfront : ∀ opened, Scans q isLoose (.code opened) front (.code (bracket :: opened)))
    (hback : ∀ opened, Scans q isLoose (.code (bracket :: opened)) back (.code opened)) :
    Sealed q (front ++ a ++ back) :=
  fun opened => ((hfront opened).append (h _ _)).append (hback opened)

theorem sealed_round (h : Enclosed q a) : Sealed q ("(" ++ a ++ ")") :=
  sealed_around .round h (fun _ => rfl) fun _ => rfl

theorem sealed_square (h : Enclosed q a) : Sealed q ("[" ++ a ++ "]") :=
  sealed_around .square h (fun _ => rfl) fun _ => rfl

theorem sealed_curly (h : Enclosed q a) : Sealed q ("\x7b" ++ a ++ "\x7d") :=
  sealed_around .curly h (fun _ => rfl) fun _ => rfl

theorem sealed_call (ha : Sealed q a) (hb : Enclosed q b) : Sealed q (a ++ "(" ++ b ++ ")") := by
  simpa only [String.append_assoc] using ha.append (sealed_round hb)

theorem sealed_subscript (ha : Sealed q a) (hb : Enclosed q b) : Sealed q (a ++ "[" ++ b ++ "]") := by
  simpa only [String.append_assoc] using ha.append (sealed_square hb)

theorem sealed_member (ha : Sealed q a) (hb : Sealed q b) : Sealed q (a ++ "." ++ b) := by
  have hpoint : Sealed q "." := fun _ => rfl
  exact (ha.append hpoint).append hb

theorem sealed_spread (ha : Sealed q a) : Sealed q ("..." ++ a) := by
  have hpoints : Sealed q "..." := fun _ => rfl
  exact hpoints.append ha

/-- An operation between two operands. -/
theorem sealed_operation {sign : String} (ha : Sealed q a) (hsign : Enclosed q sign) (hb : Sealed q b) :
    Sealed q ("(" ++ a ++ " " ++ sign ++ " " ++ b ++ ")") := by
  have hblank : Enclosed q " " := fun _ _ => rfl
  have hinside := (((ha.enclosed.append hblank).append hsign).append hblank).append hb.enclosed
  simpa only [String.append_assoc] using sealed_round hinside

theorem sealed_floorDiv (ha : Sealed q a) (hb : Sealed q b) :
    Sealed q ("(Math.floor(" ++ a ++ " / " ++ b ++ "))") := by
  intro opened
  have hopen : Scans q isLoose (.code opened) "(Math.floor(" (.code (.round :: .round :: opened)) := rfl
  have hslash : Enclosed q " / " := fun _ _ => rfl
  exact (((hopen.append (ha _)).append (hslash _ _)).append (hb _)).append rfl

theorem sealed_sign {sign : String} (hsign : Enclosed q sign) (ha : Sealed q a) :
    Sealed q ("(" ++ sign ++ a ++ ")") := by
  simpa only [String.append_assoc] using sealed_round (hsign.append ha.enclosed)

theorem sealed_arrow (ha : Enclosed q a) (hb : Sealed q b) :
    Sealed q ("((" ++ a ++ ") => (" ++ b ++ "))") := by
  intro opened
  have hopen : Scans q isLoose (.code opened) "((" (.code (.round :: .round :: opened)) := rfl
  have harrow : Scans q isLoose (.code (.round :: .round :: opened)) ") => ("
    (.code (.round :: .round :: opened)) := rfl
  exact (((hopen.append (ha _ _)).append harrow).append (hb _)).append rfl

theorem sealed_choice {test body orelse : String} (htest : Sealed q test) (hbody : Sealed q body)
    (horelse : Sealed q orelse) :
    Sealed q ("((" ++ test ++ ") ? (" ++ body ++ ") : (" ++ orelse ++ "))") := by
  intro opened
  have hopen : Scans q isLoose (.code opened) "((" (.code (.round :: .round :: opened)) := rfl
  have hthen : Scans q isLoose (.code (.round :: .round :: opened)) ") ? ("
    (.code (.round :: .round :: opened)) := rfl
  have helse : Scans q isLoose (.code (.round :: .round :: opened)) ") : ("
    (.code (.round :: .round :: opened)) := rfl
  have htexts := ((hopen.append (htest _)).append hthen).append (hbody _)
  exact ((htexts.append helse).append (horelse _)).append rfl

theorem BoolOperator.enclosed_spelling (op : BoolOperator) : Enclosed q (" " ++ op.spelling ++ " ") := by
  cases op <;> exact fun _ _ => rfl

theorem UnaryOperator.enclosed_spelling (op : UnaryOperator) : Enclosed q op.spelling := by
  cases op <;> exact fun _ _ => rfl

theorem BinaryOperator.enclosed_spell {op : BinaryOperator} {sign : String}
    (h : op.spell = .ok sign) : Enclosed q sign := by
  cases op <;> cases h <;> exact fun _ _ => rfl

theorem CmpOperator.enclosed_spell {op : CmpOperator} {sign : String} (h : op.spell = .ok sign) :
    Enclosed q sign := by
  cases op <;> cases h <;> exact fun _ _ => rfl

/-- Every comparison of a chain has brackets of its own. -/
theorem sealed_comparisons {texts : List String} (htexts : ∀ x ∈ texts, Sealed q x)
    {ops : List CmpOperator} {pairs : List String}
    (h : ExprForm.comparisons texts ops = .ok pairs) : ∀ x ∈ pairs, Sealed q x := by
  induction texts, ops using ExprForm.comparisons.induct generalizing pairs with
  | case1 left right rest op ops ih =>
    rw [ExprForm.comparisons] at h
    obtain ⟨hleft, hothers⟩ := List.forall_mem_cons.mp htexts
    have hright := hothers right List.mem_cons_self
    rcases hspell : op.spell with e | sign
    · rw [hspell] at h
      cases h
    rcases hrest : ExprForm.comparisons (right :: rest) ops with e | more
    · rw [hspell, hrest] at h
      cases h
    · rw [hspell, hrest] at h
      cases h
      refine List.forall_mem_cons.mpr ⟨?_, ih hothers hrest⟩
      exact sealed_operation hleft (CmpOperator.enclosed_spell hspell) hright
  | case2 texts ops hshape =>
    rw [ExprForm.comparisons.eq_2 _ _ hshape] at h
    cases h
    exact List.forall_mem_nil _

theorem sealed_conjunction {pairs : List String} (h : ∀ x ∈ pairs, Sealed q x) :
    Sealed q (ExprForm.conjunction pairs) := by
  unfold ExprForm.conjunction
  split
  · exact h _ List.mem_cons_self
  · have hand : Enclosed q " && " := fun _ _ => rfl
    exact sealed_round (enclosed_intercalate hand fun x hx => (h x hx).enclosed)

/-! ### What the rules for statements write -/

theorem matched_empty : Matched q "" := fun _ => rfl

theorem matched_lineBreak : Matched q ";\n" := fun _ => rfl

theorem Enclosed.scans (h : Enclosed q a) (b : Bracket) (opened : List Bracket) :
    Scans q freely (.code (b :: opened)) a (.code (b :: opened)) := scan_freely (h b opened)

/-- A text that leaves a brace open. -/
def Opens (q : Quoting) (text : String) : Prop :=
  ∀ opened, Scans q freely (.code opened) text (.code (.curly :: opened))

/-- A text that closes a brace. -/
def Closes (q : Quoting) (text : String) : Prop :=
  ∀ opened, Scans q freely (.code (.curly :: opened)) text (.code opened)

theorem Opens.append (ha : Opens q a) (hb : Matched q b) : Opens q (a ++ b) :=
  fun opened => (ha opened).append (hb _)

theorem Matched.close (ha : Matched q a) (hb : Closes q b) : Closes q (a ++ b) :=
  fun opened => (ha _).append (hb opened)

theorem Opens.matched (ha : Opens q a) (hb : Closes q b) : Matched q (a ++ b) :=
  fun opened => (ha opened).append (hb opened)

theorem opens_function {name params : String} (hname : Sealed q name) (hparams : Enclosed q params) :
    Opens q ("function " ++ name ++ "(" ++ params ++ ") \x7b\n") := by
  intro opened
  have hword : Matched q "function " := fun _ => rfl
  have hround : Scans q freely (.code opened) "(" (.code (.round :: opened)) := rfl
  have hhead := ((hword opened).append (hname.matched opened)).append hround
  exact (hhead.append (hparams.scans _ _)).append rfl

/-- The head of a statement with a condition. -/
theorem opens_condition {word test : String} (htest : Sealed q test)
    (hword : ∀ opened, Scans q freely (.code opened) word (.code (.round :: opened))) :
    Opens q (word ++ test ++ ") \x7b\n") :=
  fun opened => ((hword opened).append (htest.matched _)).append rfl

theorem closes_block : Closes q "\n\x7d" := fun _ => rfl

theorem matched_forEach {iter id body : String} (hiter : Sealed q iter) (hid : Sealed q id)
    (hbody : Matched q body) :
    Matched q (iter ++ ".forEach((" ++ id ++ ", _i) => \x7b\n" ++ body ++ "\n\x7d)") := by
  intro opened
  have hcall : Scans q freely (.code opened) ".forEach((" (.code (.round :: .round :: opened)) := rfl
  have harrow : Scans q freely (.code (.round :: .round :: opened)) ", _i) => \x7b\n"
    (.code (.curly :: .round :: opened)) := rfl
  have hhead := (((hiter.matched opened).append hcall).append (hid.matched _)).append harrow
  exact (hhead.append (hbody _)).append rfl

theorem matched_assign {name value : String} (hname : Sealed q name) (hvalue : Sealed q value) :
    Matched q (name ++ " = " ++ value) := by
  have hequals : Matched q " = " := fun _ => rfl
  exact (hname.matched.append hequals).append hvalue.matched

theorem matched_floorDiv {first second value : String} (hfirst : Sealed q first)
    (hsecond : Sealed q second) (hvalue : Sealed q value) :
    Matched q (first ++ " = Math.floor(" ++ second ++ " / " ++ value ++ ")") := by
  intro opened
  have hcall : Scans q freely (.code opened) " = Math.floor(" (.code (.round :: opened)) := rfl
  have hslash : Matched q " / " := fun _ => rfl
  have hhead := ((hfirst.matched opened).append hcall).append (hsecond.matched _)
  exact ((hhead.append (hslash _)).append (hvalue.matched _)).append rfl

end ScriptTree
