/-
  ScriptTree/Proofs/ScalarConstants.lean
  ======================================
  **Constants from JSON scalars.**  A scalar becomes a constant in two ways.  Where a tree is loaded it
  is tried as one kind of constant after the other; where a binding is made it is read as a value,
  and a number is asked whether it is a 64-bit integer.  Both give the same constant for the same
  text, or the same fault at the same place (`scalar_readings_agree`).

  Integers never wrap: the decimal spelling of an integer gives that integer if it has 64 bits with a
  sign, and a floating point number or a complaint about its range otherwise.  The significand that
  the reader of numbers gathers has 64 bits without a sign, so integers leave the range in two steps:
  from `2 ^ 63` on they are whole numbers that are no constants of that kind, and from `2 ^ 64` on
  they are not gathered to their end (`integerDigits_long`).
-/
import Mathlib.Data.List.TakeWhile
import ScriptTree.Proofs.BindingValues
import ScriptTree.Tree.Load

namespace ScriptTree

namespace Json

/-! ### The constant of a scalar -/

/-- Trying the kinds of constants in order comes to the same as asking the value what it is. -/
theorem ofJson?_of_isScalar {j : Json} (h : j.isScalar = true) :
    ∃ c, Constant.ofJson? j = some c ∧ j.merged.toExpr = ExprForm.made (.constant c) := by
  cases j with
  | int n => exact ⟨_, Constant.ofJson?_int n, rfl⟩
  | arr | obj => cases h
  | _ => exact ⟨_, rfl, rfl⟩

/-- A text in which the first thing is no list and no object. -/
def ScalarText (text : String) : Prop :=
  ∀ c ∈ (skipBlanks text.toList).head?, c ≠ '[' ∧ c ≠ '\x7b'

theorem readValue_of_scalarText {text : String} (h : ScalarText text) (fuel budget : Nat) :
    readValue fuel budget text.toList = readScalar (skipBlanks text.toList) := by
  unfold ScalarText at h
  unfold readValue
  split
  · rename_i heq
    exact absurd rfl (h '[' (by rw [heq]; rfl)).1
  · rename_i heq
    exact absurd rfl (h '\x7b' (by rw [heq]; rfl)).2
  · rfl

/-! ### Integers that are too long -/

theorem digitValue_le {c : Char} (h : c.isDigit = true) : digitValue c ≤ 9 := by
  obtain ⟨-, hnine⟩ := Bool.and_eq_true_iff.mp h
  have hmost : c.val.toNat ≤ 57 := UInt32.le_iff_toNat_le.mp (of_decide_eq_true hnine)
  exact Nat.sub_le_iff_le_add.mpr hmost

theorem integerDigits_long {n : Nat} {ds : List Char} (hds : ∀ c ∈ ds, c.isDigit = true)
    (hn : n ≤ maxSignificand) (hlong : maxSignificand < Nat.ofDigitChars 10 ds n) :
    ∃ m extra, integerDigits n ds = ((m, extra, true), []) := by
  induction ds generalizing n with
  | nil => exact absurd hn (Nat.not_le.mpr hlong)
  | cons c ds ih =>
    obtain ⟨hc, hrest⟩ := List.forall_mem_cons.mp hds
    rw [Nat.ofDigitChars_cons, Nat.mul_comm] at hlong
    by_cases hnext : n * 10 + digitValue c ≤ maxSignificand
    · have hpush : pushDigit? n c = some (n * 10 + digitValue c) := if_pos hnext
      rw [integerDigits_of_some ds hc hpush]
      exact ih hrest hnext hlong
    · have hpush : pushDigit? n c = none := if_neg hnext
      have hdrop : ds.dropWhile Char.isDigit = [] := List.dropWhile_eq_nil_iff.mpr hrest
      rw [integerDigits_of_none ds hc hpush, hdrop]
      exact ⟨_, _, rfl⟩

/-- Digits that stand for more than 64 bits are read as a floating point number, if at all. -/
theorem readNumber_toDigits_long {n : Nat} (negative : Bool) (hn : maxSignificand < n) :
    ∃ x, readNumber negative (Nat.toDigits 10 n) = finishFloat negative x [] := by
  have hpos : 0 < n := Nat.zero_lt_of_lt hn
  have hdigits : ∀ c ∈ Nat.toDigits 10 n, c.isDigit = true := fun c =>
    Nat.isDigit_of_mem_toDigits (by decide) (by decide)
  have hvalue : Nat.ofDigitChars 10 (Nat.toDigits 10 n) 0 = n :=
    Nat.ofDigitChars_toDigits (by decide) (by decide)
  have hhead := fun c => head_toDigits hpos (c := c)
  cases hds : Nat.toDigits 10 n with
  | nil => exact absurd hds Nat.toDigits_ne_nil
  | cons d ds =>
    rw [hds] at hdigits hvalue hhead
    obtain ⟨hd, hrest⟩ := List.forall_mem_cons.mp hdigits
    rw [Nat.ofDigitChars_cons, Nat.mul_zero, Nat.zero_add] at hvalue
    change Nat.ofDigitChars 10 ds (digitValue d) = n at hvalue
    have hfirst : digitValue d ≤ maxSignificand := by
      have hdigit : digitValue d ≤ 9 := digitValue_le hd
      have hmax : 9 ≤ maxSignificand := by decide
      omega
    obtain ⟨m, extra, hlong⟩ := integerDigits_long hrest hfirst (hvalue ▸ hn)
    rw [readNumber_cons (hhead d rfl) hd, hlong]
    exact ⟨⟨m, extra⟩, rfl⟩

end Json

/-! ### Both readings of a text -/

/-- Both ways to read the text give the constant. -/
def ReadsAs (text : String) (c : Constant) : Prop :=
  Constant.load text = .ok c ∧
    ∃ j, Json.parse text = .ok j ∧ j.toExpr = ExprForm.made (.constant c)

/-- Both ways to read the text stop at the same place and for the same reason. -/
def StopsWith (text : String) (fault : Json.SyntaxFault) : Prop :=
  ∃ position, Constant.load text = .error ⟨.syntaxFault fault, some position⟩ ∧
    Json.parse text = .error ⟨fault, position⟩

namespace Json

theorem parse_of_error {text : String} {stop : Stop SyntaxFault}
    (h : readText text.toList = .error stop) :
    parse text = .error ⟨stop.cause, stop.position text.toList⟩ := by
  rw [parse, h]

theorem readText_of_value {text rest : List Char} {j : Json}
    (h : readValue (fuelFor text) nestingLimit text = .ok (j, rest)) :
    readText text = (readEnd rest).map fun _ => j := by
  rw [readText, h]
  change Except.bind (readEnd rest) (fun _ => .ok j) = _
  cases readEnd rest <;> rfl

theorem readEnd_nil {rest : List Char} (h : skipBlanks rest = []) : readEnd rest = .ok ((), []) := by
  rw [readEnd, h]

theorem readEnd_cons {rest : List Char} (h : skipBlanks rest ≠ []) :
    readEnd rest = .error ⟨.trailingCharacters, skipBlanks rest, 1⟩ := by
  unfold readEnd
  split
  · contradiction
  · rfl

end Json

section Texts

open Json (skipBlanks readScalar ScalarText Stop SyntaxFault)

variable {text : String} (htext : ScalarText text)

include htext

theorem stopsWith_of_readScalar {stop : Stop SyntaxFault}
    (h : readScalar (skipBlanks text.toList) = .error stop) : StopsWith text stop.cause := by
  have hread := Json.readValue_of_scalarText htext (Json.fuelFor text.toList) Json.nestingLimit
  rw [h] at hread
  refine ⟨stop.position text.toList, ?_, Json.parse_of_error ?_⟩
  · simp only [Constant.load, hread]
  · rw [Json.readText, hread]
    rfl

theorem readsAs_of_readScalar {j : Json} {rest : List Char} {c : Constant}
    (h : readScalar (skipBlanks text.toList) = .ok (j, rest))
    (hrest : skipBlanks rest = []) (hc : Constant.ofJson? j = some c) : ReadsAs text c := by
  have hread := Json.readValue_of_scalarText htext (Json.fuelFor text.toList) Json.nestingLimit
  have hend := Json.readEnd_nil hrest
  obtain ⟨c', hc', hexpr⟩ := Json.ofJson?_of_isScalar (Json.readsScalar_readScalar _ j rest h)
  obtain rfl : c = c' := Option.some.inj (hc.symm.trans hc')
  rw [h] at hread
  have hwhole : Json.readText text.toList = .ok j := by
    rw [Json.readText_of_value hread, hend]
    rfl
  refine ⟨?_, j.merged, ?_, hexpr⟩
  · simp only [Constant.load, hread, hc, hend]
  · rw [Json.parse, hwhole]

/-- A text that is no list and no object is read in both ways alike. -/
theorem reads_or_stops : (∃ c, ReadsAs text c) ∨ ∃ fault, StopsWith text fault := by
  have hread := Json.readValue_of_scalarText htext (Json.fuelFor text.toList) Json.nestingLimit
  cases h : readScalar (skipBlanks text.toList) with
  | error stop => exact Or.inr ⟨_, stopsWith_of_readScalar htext h⟩
  | ok p =>
    obtain ⟨j, rest⟩ := p
    obtain ⟨c, hc, -⟩ := Json.ofJson?_of_isScalar (Json.readsScalar_readScalar _ j rest h)
    by_cases hrest : skipBlanks rest = []
    · exact Or.inl ⟨c, readsAs_of_readScalar htext h hrest hc⟩
    · -- something follows the scalar
      have hend := Json.readEnd_cons hrest
      rw [h] at hread
      have hwhole : Json.readText text.toList =
          .error ⟨.trailingCharacters, skipBlanks rest, 1⟩ := by
        rw [Json.readText_of_value hread, hend]
        rfl
      refine Or.inr ⟨.trailingCharacters, _, ?_, Json.parse_of_error hwhole⟩
      simp only [Constant.load, hread, hc, hend]

end Texts

/-! ### Spellings of integers -/

theorem Decimal.intText_eq_toString (n : Int) : Decimal.intText n = toString n := by
  cases n with
  | ofNat n => rfl
  | negSucc n =>
    rw [Decimal.intText, if_pos (Int.negSucc_lt_zero n)]
    rfl

namespace Json

section Spelling

variable (n : Int)

theorem head_toString {c : Char} (hc : c ∈ (toString n).toList.head?) :
    c.isDigit = true ∨ c = '-' := by
  rw [← Decimal.intText_eq_toString] at hc
  exact Decimal.mem_intText (List.mem_of_mem_head? hc)

theorem skipBlanks_toString : skipBlanks (toString n).toList = (toString n).toList := by
  cases htext : (toString n).toList with
  | nil => rfl
  | cons c cs =>
    have hc : isBlank c = false := by
      have hhead : c.isDigit = true ∨ c = '-' := head_toString n (by rw [htext]; rfl)
      by_contra hblank
      simp only [isBlank, Bool.not_eq_false, Bool.or_eq_true, decide_eq_true_eq] at hblank
      rcases hblank with ((rfl | rfl) | rfl) | rfl <;> revert hhead <;> decide
    exact skipBlanks_cons hc cs

theorem scalarText_toString : ScalarText (toString n) := by
  intro c hc
  rw [skipBlanks_toString] at hc
  rcases head_toString n hc with hdigit | rfl
  · constructor <;> rintro rfl <;> exact absurd hdigit (by decide)
  · decide

theorem readScalar_toString :
    readScalar (toString n).toList = readNumber (decide (n < 0)) (Nat.toDigits 10 n.natAbs) := by
  rw [← Decimal.intText_eq_toString, Decimal.toList_intText]
  by_cases hneg : n < 0
  · rw [if_pos hneg, decide_eq_true hneg]
    rfl
  · rw [if_neg hneg, decide_eq_false hneg]
    cases hds : Nat.toDigits 10 n.natAbs with
    | nil => exact absurd hds Nat.toDigits_ne_nil
    | cons d ds =>
      have hd : d.isDigit = true :=
        Nat.isDigit_of_mem_toDigits (by decide) (by decide) (hds ▸ List.mem_cons_self)
      exact readScalar_digit hd

variable {n}

theorem readScalar_toString_of_fits (hn : FitsInteger n) :
    readScalar (toString n).toList = .ok (.int n, []) := by
  have hread := readScalar_int endsNumber_nil hn
  rwa [List.append_nil, Decimal.intText_eq_toString] at hread

/-- An integer beyond the range is read as a floating point number, or not at all. -/
theorem readScalar_toString_of_not_fits (hn : ¬FitsInteger n) :
    (∃ x, readScalar (toString n).toList = .ok (.float x, [])) ∨
      readScalar (toString n).toList = .error ⟨.numberOutOfRange, [], 0⟩ := by
  rw [readScalar_toString]
  by_cases hshort : n.natAbs ≤ maxSignificand
  · -- no digit is lost, but the number is negative and needs more than 63 bits
    have hbeyond : n < -(Nat.pow 2 63 : Nat) := by
      unfold FitsInteger at hn
      omega
    have hwhole : wholeNumber true n.natAbs = .float (-(UInt64.ofNat n.natAbs).toFloat) := by
      have hlarge : Nat.pow 2 63 < n.natAbs := by omega
      rw [wholeNumber, if_pos rfl, if_pos (by simp [hlarge])]
    have hread := readNumber_toDigits true endsNumber_nil hshort
    rw [List.append_nil, hwhole] at hread
    rw [decide_eq_true (by omega)]
    exact Or.inl ⟨_, hread⟩
  · obtain ⟨x, hx⟩ := readNumber_toDigits_long (decide (n < 0)) (Nat.lt_of_not_le hshort)
    rw [hx, finishFloat]
    cases x.toFloat? with
    | some f => exact Or.inl ⟨_, rfl⟩
    | none => exact Or.inr rfl

end Spelling

end Json

/-! ### Integers never wrap -/

/-- The integers of 64 bits with a sign. -/
def InInt64 (n : Int) : Prop := -9223372036854775808 ≤ n ∧ n ≤ 9223372036854775807

theorem inInt64_toInt (i : Int64) : InInt64 i.toInt :=
  ⟨i.le_toInt, Int.le_of_lt_add_one i.toInt_lt⟩

section Integers

variable {n : Int}

theorem fitsInt64_iff : Constant.fitsInt64 n = true ↔ InInt64 n := by
  rw [Constant.fitsInt64, Bool.and_eq_true, decide_eq_true_eq, decide_eq_true_eq]
  rfl

theorem readsAs_ofInt (hn : Json.FitsInteger n) : ReadsAs (toString n) (Constant.ofInt n) := by
  have hread := Json.readScalar_toString_of_fits hn
  rw [← Json.skipBlanks_toString] at hread
  exact readsAs_of_readScalar (Json.scalarText_toString n) hread rfl (Constant.ofJson?_int n)

theorem readsAs_int (hn : InInt64 n) : ReadsAs (toString n) (.int (Int64.ofInt n)) := by
  have hfits := fitsInt64_iff.mpr hn
  have hreads := readsAs_ofInt (Json.fitsInteger_of_fitsInt64 hfits)
  rwa [Constant.ofInt, if_pos hfits] at hreads

theorem readsAs_float_or_stops (hn : ¬InInt64 n) :
    (∃ x, ReadsAs (toString n) (.float x)) ∨ StopsWith (toString n) .numberOutOfRange := by
  by_cases hfits : Json.FitsInteger n
  · have hreads := readsAs_ofInt hfits
    rw [Constant.ofInt, if_neg (mt fitsInt64_iff.mp hn)] at hreads
    exact Or.inl ⟨_, hreads⟩
  · have hread := Json.readScalar_toString_of_not_fits hfits
    rw [← Json.skipBlanks_toString] at hread
    rcases hread with ⟨x, hread⟩ | hread
    · exact Or.inl ⟨x, readsAs_of_readScalar (Json.scalarText_toString n) hread rfl rfl⟩
    · exact Or.inr (stopsWith_of_readScalar (Json.scalarText_toString n) hread)

theorem load_toString_eq_int_iff {i : Int64} :
    Constant.load (toString n) = .ok (.int i) ↔ i.toInt = n := by
  constructor
  · intro hload
    by_cases hn : InInt64 n
    · rw [(readsAs_int hn).1] at hload
      obtain rfl : Int64.ofInt n = i := by simpa using hload
      exact Json.toInt_ofInt_of_fitsInt64 (fitsInt64_iff.mpr hn)
    · rcases readsAs_float_or_stops hn with ⟨x, hfloat, -⟩ | ⟨position, hstop, -⟩
      · rw [hfloat] at hload
        cases hload
      · rw [hstop] at hload
        cases hload
  · rintro rfl
    have hload := (readsAs_int (inInt64_toInt i)).1
    rwa [Int64.ofInt_toInt] at hload

end Integers

/-- **A scalar is one constant however it is read, and integers never wrap.**  A text that is no list
    and no object is loaded as the constant that its value as a binding is made of, bit by bit, or
    stops both with the same fault at the same position.  The spelling of an integer gives that
    integer, which is spelled like that again, exactly if it has 64 bits with a sign; all others give
    floating point numbers or are out of range, and never another integer. -/
theorem scalar_readings_agree :
    (∀ text, Json.ScalarText text →
      (∃ c, ReadsAs text c) ∨ ∃ fault, StopsWith text fault) ∧
    ∀ n : Int,
      ((∃ i : Int64, i.toInt = n ∧ ReadsAs (toString n) (.int i) ∧
          (Constant.int i).spelling = toString n) ↔
        -9223372036854775808 ≤ n ∧ n ≤ 9223372036854775807) ∧
      (∀ i : Int64, Constant.load (toString n) = .ok (.int i) ↔ i.toInt = n) ∧
      (¬(-9223372036854775808 ≤ n ∧ n ≤ 9223372036854775807) →
        (∃ x, ReadsAs (toString n) (.float x)) ∨
          ∃ fault, StopsWith (toString n) fault ∧ fault.message = "number out of range") := by
  refine ⟨fun text => reads_or_stops, fun n => ⟨⟨?_, fun hn => ?_⟩, ?_, fun hn => ?_⟩⟩
  · rintro ⟨i, rfl, -, -⟩
    exact inInt64_toInt i
  · have hvalue := Json.toInt_ofInt_of_fitsInt64 (fitsInt64_iff.mpr hn)
    refine ⟨Int64.ofInt n, hvalue, readsAs_int hn, ?_⟩
    rw [Constant.spelling, hvalue, Decimal.intText_eq_toString]
  · exact fun i => load_toString_eq_int_iff
  · exact (readsAs_float_or_stops hn).imp_right fun hstop => ⟨_, hstop, rfl⟩

/-- A zero with a sign is a scalar; the least integer is one, and the one below it is none. -/
theorem scalar_readings_agree_least :
    (Json.ScalarText " -0" ∧ ((∃ c, ReadsAs " -0" c) ∨ ∃ fault, StopsWith " -0" fault)) ∧
    (∃ i : Int64, i.toInt = -9223372036854775808 ∧
      ReadsAs (toString (-9223372036854775808 : Int)) (.int i) ∧
      (Constant.int i).spelling = toString (-9223372036854775808 : Int)) ∧
    ((∃ x, ReadsAs (toString (-9223372036854775809 : Int)) (.float x)) ∨
      ∃ fault, StopsWith (toString (-9223372036854775809 : Int)) fault ∧
        fault.message = "number out of range") := by
  have hscalar : Json.ScalarText " -0" := by
    rintro c ⟨⟩
    decide
  obtain ⟨htexts, hintegers⟩ := scalar_readings_agree
  obtain ⟨hleast, -, -⟩ := hintegers (-9223372036854775808)
  obtain ⟨-, -, hbelow⟩ := hintegers (-9223372036854775809)
  exact ⟨⟨hscalar, htexts _ hscalar⟩, hleast.mpr (by decide), hbelow (by decide)⟩

end ScriptTree
