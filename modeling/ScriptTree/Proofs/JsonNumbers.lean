/-
  ScriptTree/Proofs/JsonNumbers.lean
  ==================================
  **Numbers in JSON text.**  Nothing marks the end of a number but the character behind it, so what is
  read depends on what follows.  In the text of a value that is a comma, a closing bracket or nothing,
  and none of them continues a number (`EndsNumber`).  Two facts are needed about what stands before
  it: a number that is read from a text of its own is read in the same way in front of such a rest
  (`readScalar_append`), and the digits of an integer spell that integer (`readScalar_int`).  And
  whatever is read as a scalar is one (`readsScalar_readScalar`).
-/
import Mathlib.Data.List.Basic
import ScriptTree.Json.Reader
import ScriptTree.Json.Writer

namespace ScriptTree.Json

/-- A text that does not continue a number. -/
def EndsNumber (rest : List Char) : Prop :=
  ∀ c ∈ rest.head?, c.isDigit = false ∧ c ≠ '.' ∧ isExponentMark c = false

theorem endsNumber_nil : EndsNumber [] := by
  intro c hc
  cases hc

theorem endsNumber_cons {c : Char} {rest : List Char}
    (hc : c.isDigit = false ∧ c ≠ '.' ∧ isExponentMark c = false) : EndsNumber (c :: rest) := by
  intro d hd
  obtain rfl : c = d := by simpa using hd
  exact hc

theorem endsNumber_comma (rest : List Char) : EndsNumber (',' :: rest) :=
  endsNumber_cons (by decide)

theorem endsNumber_bracket (rest : List Char) : EndsNumber (']' :: rest) :=
  endsNumber_cons (by decide)

theorem endsNumber_brace (rest : List Char) : EndsNumber ('\x7d' :: rest) :=
  endsNumber_cons (by decide)

/-! ### Readers that look at a first character -/

theorem integerDigits_nil (n : Nat) : integerDigits n [] = ((n, 0, false), []) := rfl

-- the equations of the two loops are opened by hand: Lean would evaluate the bound on the significand
theorem integerDigits_of_some {n next : Nat} {c : Char} (cs : List Char) (hc : c.isDigit = true)
    (h : pushDigit? n c = some next) : integerDigits n (c :: cs) = integerDigits next cs := by
  change (if c.isDigit then _ else _) = _
  rw [if_pos hc, h]

theorem integerDigits_of_none {n : Nat} {c : Char} (cs : List Char) (hc : c.isDigit = true)
    (h : pushDigit? n c = none) :
    integerDigits n (c :: cs) =
      ((n, (cs.takeWhile Char.isDigit).length + 1, true), cs.dropWhile Char.isDigit) := by
  change (if c.isDigit then _ else _) = _
  rw [if_pos hc, h]

theorem integerDigits_stop {n : Nat} {c : Char} (cs : List Char) (hc : ¬c.isDigit = true) :
    integerDigits n (c :: cs) = ((n, 0, false), c :: cs) := by
  change (if c.isDigit then _ else _) = _
  rw [if_neg hc]

theorem fractionDigits_of_some {x : Scaled} {next : Nat} {c : Char} (cs : List Char)
    (hc : c.isDigit = true) (h : pushDigit? x.significand c = some next) :
    fractionDigits x (c :: cs) = fractionDigits ⟨next, x.exponent - 1⟩ cs := by
  change (if c.isDigit then _ else _) = _
  rw [if_pos hc, h]

theorem fractionDigits_of_none {x : Scaled} {c : Char} (cs : List Char) (hc : c.isDigit = true)
    (h : pushDigit? x.significand c = none) :
    fractionDigits x (c :: cs) = (x, cs.dropWhile Char.isDigit) := by
  change (if c.isDigit then _ else _) = _
  rw [if_pos hc, h]

theorem fractionDigits_stop {x : Scaled} {c : Char} (cs : List Char) (hc : ¬c.isDigit = true) :
    fractionDigits x (c :: cs) = (x, c :: cs) := by
  change (if c.isDigit then _ else _) = _
  rw [if_neg hc]

theorem readExponent_cons {negative : Bool} {x : Scaled} {c : Char} {cs : List Char} (hplus : c ≠ '+')
    (hminus : c ≠ '-') :
    readExponent negative x (c :: cs) = exponentFrom negative false x (c :: cs) := by
  unfold readExponent
  split <;> simp_all

theorem readAfterInteger_cons {negative long : Bool} {n extra : Nat} {c : Char} {cs : List Char}
    (hpoint : c ≠ '.') :
    readAfterInteger negative n extra long (c :: cs) =
      if isExponentMark c then readExponent negative ⟨n, extra⟩ cs
      else if long then finishFloat negative ⟨n, extra⟩ (c :: cs)
      else .ok (wholeNumber negative n, c :: cs) := by
  unfold readAfterInteger
  split <;> simp_all

theorem readNumber_cons {negative : Bool} {c : Char} {cs : List Char} (hzero : c ≠ '0')
    (hc : c.isDigit = true) :
    readNumber negative (c :: cs) =
      readAfterInteger negative (integerDigits (digitValue c) cs).1.1
        (integerDigits (digitValue c) cs).1.2.1 (integerDigits (digitValue c) cs).1.2.2
        (integerDigits (digitValue c) cs).2 := by
  unfold readNumber
  split <;> simp_all

theorem readScalar_digit {c : Char} {cs : List Char} (hc : c.isDigit = true) :
    readScalar (c :: cs) = readNumber false (c :: cs) := by
  unfold readScalar
  split <;> simp_all

/-! ### What is read alone is read before an end -/

theorem finishFloat_append {negative : Bool} {x : Scaled} {cs unread : List Char} {j : Json}
    (h : finishFloat negative x cs = .ok (j, unread)) (rest : List Char) :
    finishFloat negative x (cs ++ rest) = .ok (j, unread ++ rest) := by
  unfold finishFloat at h ⊢
  cases hx : x.toFloat? with
  | none => simp [hx, stopAt] at h
  | some f =>
    simp only [hx, Except.ok.injEq, Prod.mk.injEq] at h ⊢
    exact ⟨h.1, by rw [h.2]⟩

section Append

variable {rest : List Char} (hrest : EndsNumber rest)

include hrest

theorem takeWhile_digits_append (cs : List Char) :
    (cs ++ rest).takeWhile Char.isDigit = cs.takeWhile Char.isDigit := by
  induction cs with
  | nil =>
    cases rest with
    | nil => rfl
    | cons c rest => simp [(hrest c rfl).1]
  | cons c cs ih => simp [List.takeWhile_cons, ih]

theorem dropWhile_digits_append (cs : List Char) :
    (cs ++ rest).dropWhile Char.isDigit = cs.dropWhile Char.isDigit ++ rest := by
  induction cs with
  | nil =>
    cases rest with
    | nil => rfl
    | cons c rest => simp [(hrest c rfl).1]
  | cons c cs ih =>
    rw [List.cons_append, List.dropWhile_cons, List.dropWhile_cons, ih]
    split <;> rfl

theorem integerDigits_append (n : Nat) (cs : List Char) :
    integerDigits n (cs ++ rest) = ((integerDigits n cs).1, (integerDigits n cs).2 ++ rest) := by
  induction cs generalizing n with
  | nil =>
    cases rest with
    | nil => rw [List.append_nil, List.append_nil]
    | cons c rest => exact integerDigits_stop rest (by simp [(hrest c rfl).1])
  | cons c cs ih =>
    rw [List.cons_append]
    by_cases hc : c.isDigit
    · cases hpush : pushDigit? n c with
      | some next => rw [integerDigits_of_some _ hc hpush, integerDigits_of_some _ hc hpush, ih]
      | none =>
        rw [integerDigits_of_none _ hc hpush, integerDigits_of_none _ hc hpush,
          takeWhile_digits_append hrest, dropWhile_digits_append hrest]
    · rw [integerDigits_stop _ hc, integerDigits_stop _ hc, List.cons_append]

theorem fractionDigits_append (x : Scaled) (cs : List Char) :
    fractionDigits x (cs ++ rest) = ((fractionDigits x cs).1, (fractionDigits x cs).2 ++ rest) := by
  induction cs generalizing x with
  | nil =>
    cases rest with
    | nil => rw [List.append_nil, List.append_nil]
    | cons c rest => exact fractionDigits_stop rest (by simp [(hrest c rfl).1])
  | cons c cs ih =>
    rw [List.cons_append]
    by_cases hc : c.isDigit
    · cases hpush : pushDigit? x.significand c with
      | some next => rw [fractionDigits_of_some _ hc hpush, fractionDigits_of_some _ hc hpush, ih]
      | none =>
        rw [fractionDigits_of_none _ hc hpush, fractionDigits_of_none _ hc hpush,
          dropWhile_digits_append hrest]
    · rw [fractionDigits_stop _ hc, fractionDigits_stop _ hc, List.cons_append]

theorem exponentDigits_append {negative lowers : Bool} {x : Scaled} {n : Nat}
    {cs unread : List Char} {j : Json}
    (h : exponentDigits negative lowers x n cs = .ok (j, unread)) :
    exponentDigits negative lowers x n (cs ++ rest) = .ok (j, unread ++ rest) := by
  induction cs generalizing n with
  | nil =>
    have hfinish := finishFloat_append h rest
    cases rest with
    | nil => exact hfinish
    | cons c rest => simpa [exponentDigits, (hrest c rfl).1] using hfinish
  | cons c cs ih =>
    rw [exponentDigits] at h
    rw [List.cons_append, exponentDigits]
    by_cases hc : c.isDigit
    · simp only [hc, if_true] at h ⊢
      by_cases hnext : n * 10 + digitValue c ≤ maxExponent
      · simp only [hnext, if_true] at h ⊢
        exact ih h
      · simp only [hnext, if_false] at h ⊢
        split at h
        · cases h
        · rename_i hzero
          rw [if_neg hzero, dropWhile_digits_append hrest]
          simp only [Except.ok.injEq, Prod.mk.injEq] at h ⊢
          exact ⟨h.1, by rw [h.2]⟩
    · simp only [hc] at h ⊢
      exact finishFloat_append h rest

theorem exponentFrom_append {negative lowers : Bool} {x : Scaled} {cs unread : List Char} {j : Json}
    (h : exponentFrom negative lowers x cs = .ok (j, unread)) :
    exponentFrom negative lowers x (cs ++ rest) = .ok (j, unread ++ rest) := by
  cases cs with
  | nil => cases h
  | cons c cs =>
    rw [exponentFrom] at h
    rw [List.cons_append, exponentFrom]
    by_cases hc : c.isDigit
    · simp only [hc, if_true] at h ⊢
      exact exponentDigits_append hrest h
    · simp [hc, stopOn] at h

theorem readExponent_append {negative : Bool} {x : Scaled} {cs unread : List Char} {j : Json}
    (h : readExponent negative x cs = .ok (j, unread)) :
    readExponent negative x (cs ++ rest) = .ok (j, unread ++ rest) := by
  cases cs with
  | nil => cases h
  | cons c cs =>
    by_cases hplus : c = '+'
    · subst hplus
      exact exponentFrom_append hrest h
    · by_cases hminus : c = '-'
      · subst hminus
        exact exponentFrom_append hrest h
      · rw [readExponent_cons hplus hminus] at h
        rw [List.cons_append, readExponent_cons hplus hminus]
        exact exponentFrom_append hrest h

theorem readTail_append {negative : Bool} {x : Scaled} {cs unread : List Char} {j : Json}
    (h : readTail negative x cs = .ok (j, unread)) :
    readTail negative x (cs ++ rest) = .ok (j, unread ++ rest) := by
  cases cs with
  | nil =>
    have hfinish := finishFloat_append h rest
    cases rest with
    | nil => exact hfinish
    | cons c rest => simpa [readTail, (hrest c rfl).2.2] using hfinish
  | cons c cs =>
    rw [readTail] at h
    rw [List.cons_append, readTail]
    by_cases hmark : isExponentMark c
    · simp only [hmark, if_true] at h ⊢
      exact readExponent_append hrest h
    · simp only [hmark] at h ⊢
      exact finishFloat_append h rest

theorem readFraction_append {negative : Bool} {x : Scaled} {cs unread : List Char} {j : Json}
    (h : readFraction negative x cs = .ok (j, unread)) :
    readFraction negative x (cs ++ rest) = .ok (j, unread ++ rest) := by
  cases cs with
  | nil => cases h
  | cons c cs =>
    rw [readFraction] at h
    rw [List.cons_append, readFraction]
    by_cases hc : c.isDigit
    · simp only [hc, if_true] at h ⊢
      rw [← List.cons_append, fractionDigits_append hrest]
      exact readTail_append hrest h
    · simp [hc, stopOn] at h

theorem readAfterInteger_append {negative long : Bool} {n extra : Nat} {cs unread : List Char}
    {j : Json} (h : readAfterInteger negative n extra long cs = .ok (j, unread)) :
    readAfterInteger negative n extra long (cs ++ rest) = .ok (j, unread ++ rest) := by
  have hend : ∀ {cs}, (if long then finishFloat negative ⟨n, extra⟩ cs
      else .ok (wholeNumber negative n, cs)) = .ok (j, unread) →
      (if long then finishFloat negative ⟨n, extra⟩ (cs ++ rest)
        else .ok (wholeNumber negative n, cs ++ rest)) = Except.ok (j, unread ++ rest) := by
    intro cs h
    cases long with
    | true => exact finishFloat_append h rest
    | false => simpa using h
  cases cs with
  | nil =>
    have hend := hend h
    cases rest with
    | nil => exact hend
    | cons c rest =>
      obtain ⟨-, hpoint, hmark⟩ := hrest c rfl
      simpa [readAfterInteger_cons hpoint, hmark] using hend
  | cons c cs =>
    by_cases hpoint : c = '.'
    · subst hpoint
      exact readFraction_append hrest h
    · rw [readAfterInteger_cons hpoint] at h
      rw [List.cons_append, readAfterInteger_cons hpoint]
      by_cases hmark : isExponentMark c
      · simp only [hmark, if_true] at h ⊢
        exact readExponent_append hrest h
      · simp only [hmark] at h ⊢
        exact hend h

theorem readNumber_append {negative : Bool} {cs unread : List Char} {j : Json}
    (h : readNumber negative cs = .ok (j, unread)) :
    readNumber negative (cs ++ rest) = .ok (j, unread ++ rest) := by
  cases cs with
  | nil => cases h
  | cons c cs =>
    by_cases hzero : c = '0'
    · subst hzero
      cases cs with
      | nil =>
        have happend : readAfterInteger negative 0 0 false ([] ++ rest) = .ok (j, unread ++ rest) :=
          readAfterInteger_append hrest h
        cases rest with
        | nil => exact happend
        | cons c rest => simpa [readNumber, (hrest c rfl).1] using happend
      | cons d cs =>
        simp only [readNumber] at h
        simp only [List.cons_append, readNumber]
        by_cases hd : d.isDigit
        · simp [hd, stopOn] at h
        · simp only [hd] at h ⊢
          exact readAfterInteger_append hrest h
    · have hc : c.isDigit = true := by
        by_contra hc
        rw [readNumber] at h
        · simp [hc, stopOn] at h
        · simpa using hzero
      rw [readNumber_cons hzero hc] at h
      rw [List.cons_append, readNumber_cons hzero hc, integerDigits_append hrest]
      exact readAfterInteger_append hrest h

/-- A floating point number that is read from a text of its own is read before an end too. -/
theorem readScalar_append {x : Float} {cs : List Char} (h : readScalar cs = .ok (.float x, [])) :
    readScalar (cs ++ rest) = .ok (.float x, rest) := by
  have hother : ∀ {α : Type} {read : Except (Stop SyntaxFault) (α × List Char)} {f : α → Json},
      (read >>= fun p => pure (f p.1, p.2)) = .ok (.float x, []) → ∃ a, f a = .float x := by
    intro α read f hread
    cases read with
    | error e => cases hread
    | ok p => exact ⟨p.1, congrArg Prod.fst (Except.ok.inj hread)⟩
  unfold readScalar at h
  split at h
  · cases h
  · obtain ⟨_, hx⟩ := hother (f := fun _ => .null) h
    cases hx
  · obtain ⟨_, hx⟩ := hother (f := fun _ => .bool true) h
    cases hx
  · obtain ⟨_, hx⟩ := hother (f := fun _ => .bool false) h
    cases hx
  · exact readNumber_append hrest h
  · obtain ⟨_, hx⟩ := hother (f := .str) h
    cases hx
  · rename_i c cs _ _ _ _ _
    by_cases hc : c.isDigit
    · rw [if_pos hc] at h
      rw [List.cons_append, readScalar_digit hc]
      exact readNumber_append hrest h
    · rw [if_neg hc] at h
      cases h

end Append

/-! ### Integers -/

theorem le_ofDigitChars (n : Nat) (cs : List Char) : n ≤ Nat.ofDigitChars 10 cs n := by
  induction cs generalizing n with
  | nil => exact Nat.le_refl n
  | cons c cs ih =>
    rw [Nat.ofDigitChars_cons]
    exact Nat.le_trans (by omega) (ih _)

theorem integerDigits_ofDigitChars {n : Nat} {ds rest : List Char} (hrest : EndsNumber rest)
    (hds : ∀ c ∈ ds, c.isDigit = true) (hfits : Nat.ofDigitChars 10 ds n ≤ maxSignificand) :
    integerDigits n (ds ++ rest) = ((Nat.ofDigitChars 10 ds n, 0, false), rest) := by
  induction ds generalizing n with
  | nil => rw [integerDigits_append hrest, integerDigits_nil, Nat.ofDigitChars_nil, List.nil_append]
  | cons c ds ih =>
    rw [Nat.ofDigitChars_cons, Nat.mul_comm] at hfits ⊢
    have hpush : pushDigit? n c = some (n * 10 + digitValue c) :=
      if_pos (Nat.le_trans (le_ofDigitChars _ ds) hfits)
    rw [List.cons_append, integerDigits_of_some _ (hds c List.mem_cons_self) hpush]
    exact ih (fun d hd => hds d (List.mem_cons_of_mem c hd)) hfits

theorem head_toDigits {n : Nat} (hn : 0 < n) {c : Char} (hc : c ∈ (Nat.toDigits 10 n).head?) :
    c ≠ '0' := by
  induction n using Nat.strongRecOn with
  | ind n ih =>
    by_cases hlt : n < 10
    · rw [Nat.toDigits_of_lt_base hlt] at hc
      obtain rfl : n.digitChar = c := by simpa using hc
      have hdigit : ∀ m < 10, 0 < m → m.digitChar ≠ '0' := by decide
      exact hdigit n hlt hn
    · have hge : 10 ≤ n := Nat.le_of_not_lt hlt
      rw [Nat.toDigits_of_base_le (by decide) hge,
        List.head?_append_of_ne_nil _ Nat.toDigits_ne_nil] at hc
      exact ih (n / 10) (by omega) (by omega) hc

/-- The digits of a number are read as that number, if it has at most 64 bits. -/
theorem readNumber_toDigits {n : Nat} {rest : List Char} (negative : Bool) (hrest : EndsNumber rest)
    (hn : n ≤ maxSignificand) :
    readNumber negative (Nat.toDigits 10 n ++ rest) = .ok (wholeNumber negative n, rest) := by
  have hend : readAfterInteger negative n 0 false ([] ++ rest) =
      .ok (wholeNumber negative n, [] ++ rest) := readAfterInteger_append hrest rfl
  rw [List.nil_append] at hend
  by_cases hn0 : n = 0
  · subst hn0
    rw [Nat.toDigits_zero, List.singleton_append]
    cases rest with
    | nil => exact hend
    | cons c rest => simpa [readNumber, (hrest c rfl).1] using hend
  · have hdigits : ∀ c ∈ Nat.toDigits 10 n, c.isDigit = true := fun c =>
      Nat.isDigit_of_mem_toDigits (by decide) (by decide)
    have hvalue : Nat.ofDigitChars 10 (Nat.toDigits 10 n) 0 = n :=
      Nat.ofDigitChars_toDigits (by decide) (by decide)
    have hhead := fun c => head_toDigits (Nat.pos_of_ne_zero hn0) (c := c)
    cases hds : Nat.toDigits 10 n with
    | nil => exact absurd hds Nat.toDigits_ne_nil
    | cons d ds =>
      rw [hds] at hdigits hvalue hhead
      rw [Nat.ofDigitChars_cons, Nat.mul_zero, Nat.zero_add] at hvalue
      change Nat.ofDigitChars 10 ds (digitValue d) = n at hvalue
      have hint := integerDigits_ofDigitChars hrest
        (fun c hc => hdigits c (List.mem_cons_of_mem d hc)) (hvalue.symm ▸ hn)
      rw [List.cons_append, readNumber_cons (hhead d rfl) (hdigits d List.mem_cons_self), hint, hvalue]
      exact hend

/-- The integers that have a reading as integers: 64 bits, with a sign if they are negative. -/
def FitsInteger (n : Int) : Prop := -(Nat.pow 2 63 : Nat) ≤ n ∧ n ≤ (maxSignificand : Nat)

/-- The spelling of an integer is read as that integer. -/
theorem readScalar_int {n : Int} {rest : List Char} (hrest : EndsNumber rest)
    (hn : FitsInteger n) :
    readScalar ((Decimal.intText n).toList ++ rest) = .ok (.int n, rest) := by
  have hleast : -(Nat.pow 2 63 : Nat) ≤ n := hn.1
  have hfits : n.natAbs ≤ maxSignificand := by
    have hpow : Nat.pow 2 63 ≤ maxSignificand := by decide
    have hgreatest := hn.2
    omega
  unfold Decimal.intText
  by_cases hneg : n < 0
  · have hwhole : wholeNumber true n.natAbs = .int n := by
      have hbound : ¬(n.natAbs = 0 ∨ Nat.pow 2 63 < n.natAbs) := by omega
      simp only [wholeNumber, if_true]
      rw [if_neg (by simpa using hbound)]
      congr 1
      omega
    simp only [if_pos hneg, Decimal.natText, String.toList_append, String.toList_ofList]
    change readNumber true (Nat.toDigits 10 n.natAbs ++ rest) = _
    rw [readNumber_toDigits true hrest hfits, hwhole]
  · have hwhole : wholeNumber false n.natAbs = .int n := by
      change Json.int n.natAbs = .int n
      congr 1
      omega
    rw [if_neg hneg, Decimal.natText, String.toList_ofList]
    cases hds : Nat.toDigits 10 n.natAbs with
    | nil => exact absurd hds Nat.toDigits_ne_nil
    | cons d ds =>
      have hd : d.isDigit = true :=
        Nat.isDigit_of_mem_toDigits (by decide) (by decide) (hds ▸ List.mem_cons_self)
      rw [List.cons_append, readScalar_digit hd, ← List.cons_append, ← hds,
        readNumber_toDigits false hrest hfits, hwhole]

/-! ### Scalars are read as scalars -/

/-- A value that is neither a list nor an object. -/
def isScalar : Json → Bool
  | .arr _ | .obj _ => false
  | _ => true

/-- Whatever is read is a scalar. -/
def ReadsScalar (r : Except (Stop SyntaxFault) (Json × List Char)) : Prop :=
  ∀ j rest, r = .ok (j, rest) → j.isScalar = true

theorem readsScalar_ok {j : Json} (h : j.isScalar = true) (rest : List Char) :
    ReadsScalar (.ok (j, rest)) := by
  rintro _ _ ⟨⟩
  exact h

theorem readsScalar_error (stop : Stop SyntaxFault) : ReadsScalar (.error stop) := by
  rintro _ _ ⟨⟩

theorem readsScalar_map {α : Type} (r : Except (Stop SyntaxFault) (α × List Char)) {f : α → Json}
    (h : ∀ a, (f a).isScalar = true) : ReadsScalar (r >>= fun p => pure (f p.1, p.2)) := by
  cases r with
  | error stop => exact readsScalar_error stop
  | ok p => exact readsScalar_ok (h p.1) p.2

section Numbers

variable (negative lowers : Bool) (x : Scaled) (cs : List Char)

theorem readsScalar_finishFloat : ReadsScalar (finishFloat negative x cs) := by
  unfold finishFloat
  split
  · exact readsScalar_ok rfl cs
  · exact readsScalar_error _

theorem readsScalar_exponentDigits (n : Nat) :
    ReadsScalar (exponentDigits negative lowers x n cs) := by
  induction cs generalizing n with
  | nil => exact readsScalar_finishFloat negative _ []
  | cons c cs ih =>
    unfold exponentDigits
    split
    · dsimp only
      split
      · exact ih _
      split
      · exact readsScalar_error _
      · exact readsScalar_ok rfl _
    · exact readsScalar_finishFloat negative _ _

theorem readsScalar_exponentFrom : ReadsScalar (exponentFrom negative lowers x cs) := by
  unfold exponentFrom
  split
  · exact readsScalar_error _
  split
  · exact readsScalar_exponentDigits negative lowers x _ _
  · exact readsScalar_error _

theorem readsScalar_readExponent : ReadsScalar (readExponent negative x cs) := by
  unfold readExponent
  split <;> exact readsScalar_exponentFrom negative _ x _

theorem readsScalar_readFraction : ReadsScalar (readFraction negative x cs) := by
  have htail : ∀ (y : Scaled) (cs : List Char), ReadsScalar (readTail negative y cs) := by
    intro y cs
    unfold readTail
    split
    · exact readsScalar_finishFloat negative y []
    split
    · exact readsScalar_readExponent negative y _
    · exact readsScalar_finishFloat negative y _
  unfold readFraction
  split
  · exact readsScalar_error _
  split
  · exact htail _ _
  · exact readsScalar_error _

theorem readsScalar_readAfterInteger (n extra : Nat) (long : Bool) :
    ReadsScalar (readAfterInteger negative n extra long cs) := by
  have hend : ∀ cs, ReadsScalar (if long then finishFloat negative ⟨n, extra⟩ cs
      else .ok (wholeNumber negative n, cs)) := by
    intro cs
    have hwhole : (wholeNumber negative n).isScalar = true := by
      unfold wholeNumber
      split
      · split <;> rfl
      · rfl
    split
    · exact readsScalar_finishFloat negative _ cs
    · exact readsScalar_ok hwhole cs
  unfold readAfterInteger
  split
  · exact readsScalar_readFraction negative _ _
  split
  · split
    · exact readsScalar_readExponent negative _ _
    · exact hend _
  · exact hend _

theorem readsScalar_readNumber : ReadsScalar (readNumber negative cs) := by
  unfold readNumber
  split
  · exact readsScalar_error _
  · split
    · split
      · exact readsScalar_error _
      · exact readsScalar_readAfterInteger negative _ _ _ _
    · exact readsScalar_readAfterInteger negative _ _ _ _
  · split
    · exact readsScalar_readAfterInteger negative _ _ _ _
    · exact readsScalar_error _

theorem readsScalar_readScalar : ReadsScalar (readScalar cs) := by
  unfold readScalar
  split
  · exact readsScalar_error _
  · exact readsScalar_map _ (f := fun _ => .null) fun _ => rfl
  · exact readsScalar_map _ (f := fun _ => .bool true) fun _ => rfl
  · exact readsScalar_map _ (f := fun _ => .bool false) fun _ => rfl
  · exact readsScalar_readNumber true _
  · exact readsScalar_map _ (f := .str) fun _ => rfl
  · split
    · exact readsScalar_readNumber false _
    · exact readsScalar_error _

end Numbers

end ScriptTree.Json
