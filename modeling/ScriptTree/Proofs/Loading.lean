/-
  ScriptTree/Proofs/Loading.lean
  ==============================
  **Loading a text is reading its value.**  A text is loaded as a module exactly if it is read as a JSON
  value that stands for the module (`Module.load_eq_ok_iff`).  The two readers differ in the outermost
  node only: where a module is loaded, its location is checked as soon as it is read.

  What the reader of values does is told first, as a relation (`ReadsValue`).  Then a location that is
  checked at once is a value that is a location (`Load.readLoc_eq_ok_iff`), and what is gathered of the
  outermost node is what is taken out of its members (`Load.Outer.Takes`).
-/
import ScriptTree.Proofs.JsonNumbers
import ScriptTree.Proofs.RecordFields
import ScriptTree.Tree.Load

namespace ScriptTree

namespace Json

/-! ### What is read -/

section Loops

variable {ε : Type} {fault : SyntaxFault → ε}

/-- The items of a list up to its closing bracket, in at most so many rounds. -/
inductive ReadsItems {α : Type} (item : List Char → Reading ε α) :
    Nat → Bool → List Char → List α → List Char → Prop where
  | done {n : Nat} {first : Bool} {cs rest : List Char}
      (hnext : nextItem first cs = .ok (false, rest)) : ReadsItems item (n + 1) first cs [] rest
  | item {n : Nat} {first : Bool} {cs text unread rest : List Char} {a : α} {as : List α}
      (hnext : nextItem first cs = .ok (true, text)) (hitem : item text = .ok (a, unread))
      (hrest : ReadsItems item n false unread as rest) :
      ReadsItems item (n + 1) first cs (a :: as) rest

theorem readItems_eq_ok_iff {α : Type} {item : List Char → Reading ε α} {n : Nat} {first : Bool}
    {acc result : List α} {cs rest : List Char} :
    readItems fault item n first acc cs = .ok (result, rest)
      ↔ ∃ as, ReadsItems item n first cs as rest ∧ result = acc.reverse ++ as := by
  induction n generalizing first acc cs with
  | zero =>
    constructor
    · rintro ⟨⟩
    · rintro ⟨as, ⟨⟩, -⟩
  | succ n ih =>
    rw [readItems, bind_eq_ok_iff]
    constructor
    · rintro ⟨⟨more, text⟩, hnext, h⟩
      rw [mapError_eq_ok_iff] at hnext
      cases more with
      | false =>
        obtain ⟨rfl, rfl⟩ := Prod.mk.inj (Except.ok.inj h)
        exact ⟨[], .done hnext, by simp⟩
      | true =>
        obtain ⟨⟨a, unread⟩, hitem, h⟩ := bind_eq_ok_iff.mp h
        obtain ⟨as, hrest, rfl⟩ := ih.mp h
        exact ⟨a :: as, .item hnext hitem hrest, by simp⟩
    · rintro ⟨as, hreads, rfl⟩
      cases hreads with
      | done hnext => exact ⟨_, mapError_eq_ok_iff.mpr hnext, by simp [pure, Except.pure]⟩
      | item hnext hitem hrest =>
        refine ⟨_, mapError_eq_ok_iff.mpr hnext, bind_eq_ok_iff.mpr ⟨_, hitem, ?_⟩⟩
        exact ih.mpr ⟨_, hrest, by simp⟩

/-- The rounds over the members of an object up to its closing brace: from what was gathered to what
    is gathered in the end. -/
inductive ReadsMembers {σ : Type} (member : σ → String → List Char → Reading ε σ) :
    Nat → Bool → σ → List Char → σ → List Char → Prop where
  | done {n : Nat} {first : Bool} {acc : σ} {cs rest : List Char}
      (hnext : nextMember first cs = .ok (false, rest)) :
      ReadsMembers member (n + 1) first acc cs acc rest
  | member {n : Nat} {first : Bool} {acc next result : σ} {cs text after unread rest : List Char}
      {key : String} (hnext : nextMember first cs = .ok (true, text))
      (hkey : readString text = .ok (key, after)) (hmember : member acc key after = .ok (next, unread))
      (hrest : ReadsMembers member n false next unread result rest) :
      ReadsMembers member (n + 1) first acc cs result rest

theorem readMembers_eq_ok_iff {σ : Type} {member : σ → String → List Char → Reading ε σ} {n : Nat}
    {first : Bool} {acc result : σ} {cs rest : List Char} :
    readMembers fault member n first acc cs = .ok (result, rest)
      ↔ ReadsMembers member n first acc cs result rest := by
  induction n generalizing first acc cs with
  | zero =>
    constructor
    · rintro ⟨⟩
    · rintro ⟨⟩
  | succ n ih =>
    rw [readMembers, bind_eq_ok_iff]
    constructor
    · rintro ⟨⟨more, text⟩, hnext, h⟩
      rw [mapError_eq_ok_iff] at hnext
      cases more with
      | false =>
        obtain ⟨rfl, rfl⟩ := Prod.mk.inj (Except.ok.inj h)
        exact .done hnext
      | true =>
        obtain ⟨⟨key, after⟩, hkey, h⟩ := bind_eq_ok_iff.mp h
        obtain ⟨⟨next, unread⟩, hmember, h⟩ := bind_eq_ok_iff.mp h
        exact .member hnext (mapError_eq_ok_iff.mp hkey) hmember (ih.mp h)
    · intro hreads
      cases hreads with
      | done hnext => exact ⟨_, mapError_eq_ok_iff.mpr hnext, rfl⟩
      | member hnext hkey hmember hrest =>
        refine ⟨_, mapError_eq_ok_iff.mpr hnext, bind_eq_ok_iff.mpr ⟨_, mapError_eq_ok_iff.mpr hkey, ?_⟩⟩
        exact bind_eq_ok_iff.mpr ⟨_, hmember, ih.mpr hrest⟩

end Loops

/-! ### Values -/

theorem readMember_eq_ok_iff {value : List Char → Reading SyntaxFault Json}
    {acc next : List (String × Json)} {key : String} {cs rest : List Char} :
    readMember value acc key cs = .ok (next, rest)
      ↔ ∃ unread j, readColon cs = .ok ((), unread) ∧ value unread = .ok (j, rest)
        ∧ next = (key, j) :: acc := by
  rw [readMember, bind_eq_ok_iff]
  constructor
  · rintro ⟨⟨⟨⟩, unread⟩, hcolon, h⟩
    obtain ⟨⟨j, after⟩, hvalue, h⟩ := bind_eq_ok_iff.mp h
    obtain ⟨rfl, rfl⟩ := Prod.mk.inj (Except.ok.inj h)
    exact ⟨unread, j, hcolon, hvalue, rfl⟩
  · rintro ⟨unread, j, hcolon, hvalue, rfl⟩
    exact ⟨_, hcolon, bind_eq_ok_iff.mpr ⟨_, hvalue, rfl⟩⟩

/-- What is read as a value: brackets with values between them, or a scalar. -/
inductive ReadsValue (fuel : Nat) : Nat → List Char → Json → List Char → Prop where
  | arr {budget : Nat} {cs text rest : List Char} {items : List Json}
      (hopen : skipBlanks cs = '[' :: text)
      (hitems : ReadsItems (readValue fuel budget) fuel true text items rest) :
      ReadsValue fuel (budget + 1) cs (.arr items) rest
  | obj {budget : Nat} {cs text rest : List Char} {members : List (String × Json)}
      (hopen : skipBlanks cs = '\x7b' :: text)
      (hmembers : ReadsMembers (readMember (readValue fuel budget)) fuel true [] text members rest) :
      ReadsValue fuel (budget + 1) cs (.obj members.reverse) rest
  | scalar {budget : Nat} {cs rest : List Char} {j : Json}
      (hscalar : readScalar (skipBlanks cs) = .ok (j, rest)) : ReadsValue fuel budget cs j rest

theorem readValue_eq_ok_iff {fuel budget : Nat} {cs rest : List Char} {j : Json} :
    readValue fuel budget cs = .ok (j, rest) ↔ ReadsValue fuel budget cs j rest := by
  rw [readValue.eq_def]
  dsimp only
  constructor
  · intro h
    split at h
    next text hopen =>
      cases budget with
      | zero => cases h
      | succ budget =>
        obtain ⟨⟨items, after⟩, hread, h⟩ := bind_eq_ok_iff.mp h
        obtain ⟨rfl, rfl⟩ := Prod.mk.inj (Except.ok.inj h)
        obtain ⟨_, hitems, rfl⟩ := readItems_eq_ok_iff.mp hread
        exact .arr hopen hitems
    next text hopen =>
      cases budget with
      | zero => cases h
      | succ budget =>
        obtain ⟨⟨members, after⟩, hread, h⟩ := bind_eq_ok_iff.mp h
        obtain ⟨rfl, rfl⟩ := Prod.mk.inj (Except.ok.inj h)
        exact .obj hopen (readMembers_eq_ok_iff.mp hread)
    next => exact .scalar h
  · intro h
    cases h with
    | arr hopen hitems =>
      rw [hopen]
      exact bind_eq_ok_iff.mpr ⟨_, readItems_eq_ok_iff.mpr ⟨_, hitems, rfl⟩, rfl⟩
    | obj hopen hmembers =>
      rw [hopen]
      exact bind_eq_ok_iff.mpr ⟨_, readMembers_eq_ok_iff.mpr hmembers, rfl⟩
    | scalar hscalar =>
      -- a bracket does not begin a scalar
      split
      next hopen => rw [hopen] at hscalar; cases hscalar
      next hopen => rw [hopen] at hscalar; cases hscalar
      next => exact hscalar

end Json

/-! ### Locations -/

theorem Decoder.loc_eq_ok_iff {j : Json} {l : Loc} :
    Decoder.loc j = .ok l
      ↔ ∃ a b, j = .arr [a, b] ∧ Decoder.unsigned a = .ok l.line
        ∧ Decoder.unsigned b = .ok l.column := by
  constructor
  · intro h
    unfold Decoder.loc at h
    split at h
    next => cases h
    next =>
      obtain ⟨_, -, h⟩ := bind_eq_ok_iff.mp h
      cases h
    next a b more =>
      obtain ⟨line, hline, h⟩ := bind_eq_ok_iff.mp h
      obtain ⟨column, hcolumn, h⟩ := bind_eq_ok_iff.mp h
      split at h
      next hmore =>
        obtain rfl := Except.ok.inj h
        obtain rfl := List.isEmpty_iff.mp hmore
        exact ⟨a, b, rfl, hline, hcolumn⟩
      next => cases h
    next => cases h
  · rintro ⟨a, b, rfl, hline, hcolumn⟩
    exact bind_eq_ok_iff.mpr ⟨_, hline, bind_eq_ok_iff.mpr ⟨_, hcolumn, rfl⟩⟩

namespace Load

open Json

theorem refuse_ne_ok {α : Type} (expected : Expected) (cs : List Char) (a : α) :
    refuse expected cs ≠ .ok a := by
  unfold refuse
  intro h
  split at h
  next => cases h
  next => cases h
  next =>
    obtain ⟨_, -, h⟩ := bind_eq_ok_iff.mp h
    cases h

theorem readUnsigned_eq_ok_iff {cs rest : List Char} {n : UInt32} (fuel budget : Nat) :
    readUnsigned cs = .ok (n, rest)
      ↔ ∃ j, readValue fuel budget cs = .ok (j, rest) ∧ Decoder.unsigned j = .ok n := by
  unfold readUnsigned
  constructor
  · intro h
    split at h
    next => exact absurd h (refuse_ne_ok _ _ _)
    next => exact absurd h (refuse_ne_ok _ _ _)
    next =>
      obtain ⟨⟨j, unread⟩, hscalar, h⟩ := bind_eq_ok_iff.mp h
      obtain ⟨k, hunsigned, h⟩ := bind_eq_ok_iff.mp h
      obtain ⟨rfl, rfl⟩ := Prod.mk.inj (Except.ok.inj h)
      refine ⟨j, readValue_eq_ok_iff.mpr (.scalar (mapError_eq_ok_iff.mp hscalar)), ?_⟩
      exact mapError_eq_ok_iff.mp hunsigned
  · rintro ⟨j, hvalue, hunsigned⟩
    cases readValue_eq_ok_iff.mp hvalue with
    | arr => cases hunsigned
    | obj => cases hunsigned
    | scalar hscalar =>
      split
      next hopen => rw [hopen] at hscalar; cases hscalar
      next hopen => rw [hopen] at hscalar; cases hscalar
      next =>
        refine bind_eq_ok_iff.mpr ⟨_, mapError_eq_ok_iff.mpr hscalar, ?_⟩
        exact bind_eq_ok_iff.mpr ⟨_, mapError_eq_ok_iff.mpr hunsigned, rfl⟩

theorem readListEnd_eq_ok_iff {cs rest : List Char} :
    readListEnd cs = .ok rest ↔ nextItem false cs = .ok (false, rest) := by
  have hend : readListEnd cs = .ok rest ↔ skipBlanks cs = ']' :: rest := by
    constructor
    · intro h
      unfold readListEnd at h
      split at h
      next => cases h
      next hclose => rw [hclose, Except.ok.inj h]
      next => split at h <;> cases h
      next => cases h
    · intro hclose
      rw [readListEnd, hclose]
      rfl
  have hnext : nextItem false cs = .ok (false, rest) ↔ skipBlanks cs = ']' :: rest := by
    constructor
    · intro h
      unfold nextItem at h
      split at h
      next => cases h
      next hclose => rw [hclose, (Prod.mk.inj (Except.ok.inj h)).2]
      next =>
        rw [if_neg Bool.false_ne_true] at h
        split at h
        next => split at h <;> cases h
        next => cases h
    · intro hclose
      rw [nextItem, hclose]
      rfl
  exact hend.trans hnext.symm

/-- **A location that is checked at once is a value that is a location.**  The first number bounds
    the items of a list, and a location needs two rounds for its items and one for its end. -/
theorem readLoc_eq_ok_iff {cs rest : List Char} {l : Loc} {fuel : Nat} (hfuel : 3 ≤ fuel)
    (budget : Nat) :
    readLoc cs = .ok (l, rest)
      ↔ ∃ j, readValue fuel (budget + 1) cs = .ok (j, rest) ∧ Decoder.loc j = .ok l := by
  obtain ⟨n, rfl⟩ := Nat.exists_eq_add_of_le' hfuel
  constructor
  · intro h
    unfold readLoc at h
    split at h
    next text hopen =>
      obtain ⟨⟨more, first⟩, hfirst, h⟩ := bind_eq_ok_iff.mp h
      cases more with
      | false => cases h
      | true =>
        obtain ⟨⟨line, after⟩, hline, h⟩ := bind_eq_ok_iff.mp h
        obtain ⟨⟨more, second⟩, hsecond, h⟩ := bind_eq_ok_iff.mp h
        cases more with
        | false => cases h
        | true =>
          obtain ⟨⟨column, unread⟩, hcolumn, h⟩ := bind_eq_ok_iff.mp h
          obtain ⟨_, hclose, h⟩ := bind_eq_ok_iff.mp h
          obtain ⟨rfl, rfl⟩ := Prod.mk.inj (Except.ok.inj h)
          obtain ⟨a, ha, hunsigned⟩ := (readUnsigned_eq_ok_iff (n + 3) budget).mp hline
          obtain ⟨b, hb, hunsigned'⟩ := (readUnsigned_eq_ok_iff (n + 3) budget).mp hcolumn
          have hitems := ReadsItems.item (mapError_eq_ok_iff.mp hfirst) ha
            (.item (mapError_eq_ok_iff.mp hsecond) hb
              (.done (n := n) (readListEnd_eq_ok_iff.mp hclose)))
          exact ⟨.arr [a, b], readValue_eq_ok_iff.mpr (.arr hopen hitems),
            Decoder.loc_eq_ok_iff.mpr ⟨a, b, rfl, hunsigned, hunsigned'⟩⟩
    next => exact absurd h (refuse_ne_ok _ _ _)
  · rintro ⟨j, hvalue, hloc⟩
    obtain ⟨a, b, rfl, hline, hcolumn⟩ := Decoder.loc_eq_ok_iff.mp hloc
    cases readValue_eq_ok_iff.mp hvalue with
    | scalar hscalar => exact absurd (readsScalar_readScalar _ _ _ hscalar) (by simp [isScalar])
    | arr hopen hitems =>
      rcases hitems with _ | ⟨hfirst, ha, hitems⟩
      rcases hitems with _ | ⟨hsecond, hb, hitems⟩
      rcases hitems with ⟨hclose⟩ | _
      have hline := (readUnsigned_eq_ok_iff (n + 3) budget).mpr ⟨a, ha, hline⟩
      have hcolumn := (readUnsigned_eq_ok_iff (n + 3) budget).mpr ⟨b, hb, hcolumn⟩
      rw [readLoc, hopen]
      refine bind_eq_ok_iff.mpr ⟨_, mapError_eq_ok_iff.mpr hfirst, ?_⟩
      refine bind_eq_ok_iff.mpr ⟨_, hline, ?_⟩
      refine bind_eq_ok_iff.mpr ⟨_, mapError_eq_ok_iff.mpr hsecond, ?_⟩
      refine bind_eq_ok_iff.mpr ⟨_, hcolumn, ?_⟩
      exact bind_eq_ok_iff.mpr ⟨_, readListEnd_eq_ok_iff.mpr hclose, rfl⟩

/-! ### The outermost node -/

/-- What becomes of the outermost node by one member. -/
inductive Outer.Gains (outer : Outer) (key : String) (j : Json) : Outer → Prop where
  | loc {l : Loc} (hkey : key = "loc") (hnone : outer.loc = none) (hloc : Decoder.loc j = .ok l) :
      Gains outer key j { outer with loc := some l }
  | other (hkey : key ≠ "loc") : Gains outer key j { outer with members := (key, j) :: outer.members }

/-- What becomes of the outermost node by some members: its location is taken out of them. -/
def Outer.Takes (outer : Outer) (ms : List (String × Json)) (next : Outer) : Prop :=
  ∃ others, Decoder.takeField "loc" Decoder.loc outer.loc ms = .ok (next.loc, others)
    ∧ next.members = others.reverse ++ outer.members

theorem Outer.takes_nil_iff {outer next : Outer} : outer.Takes [] next ↔ next = outer := by
  obtain ⟨l, members⟩ := outer
  obtain ⟨l', members'⟩ := next
  constructor
  · rintro ⟨others, h, hmembers⟩
    obtain ⟨rfl, rfl⟩ := Prod.mk.inj (Except.ok.inj h)
    simp_all
  · rintro ⟨⟩
    exact ⟨[], rfl, rfl⟩

theorem Outer.takes_cons_iff {outer next : Outer} {key : String} {j : Json}
    {ms : List (String × Json)} :
    outer.Takes ((key, j) :: ms) next ↔ ∃ mid, outer.Gains key j mid ∧ mid.Takes ms next := by
  constructor
  · rintro ⟨others, h, hmembers⟩
    by_cases hkey : key = "loc"
    · subst hkey
      rcases hfound : outer.loc with _ | found
      · rw [hfound, Decoder.takeField_none] at h
        obtain ⟨l, hloc, h⟩ := bind_eq_ok_iff.mp h
        exact ⟨_, .loc rfl hfound hloc, others, h, hmembers⟩
      · rw [hfound, Decoder.takeField_some] at h
        cases h
    · rw [Decoder.takeField_of_ne hkey] at h
      obtain ⟨⟨l, rest⟩, htake, hpure⟩ := bind_eq_ok_iff.mp h
      obtain ⟨rfl, rfl⟩ := Prod.mk.inj (Except.ok.inj hpure)
      exact ⟨_, .other hkey, rest, htake, by simpa using hmembers⟩
  · rintro ⟨_, ⟨rfl, hnone, hloc⟩ | hkey, others, h, hmembers⟩
    · refine ⟨others, ?_, hmembers⟩
      rw [hnone, Decoder.takeField_none]
      exact bind_eq_ok_iff.mpr ⟨_, hloc, h⟩
    · refine ⟨(key, j) :: others, ?_, by simpa using hmembers⟩
      rw [Decoder.takeField_of_ne hkey]
      exact bind_eq_ok_iff.mpr ⟨_, h, rfl⟩

section Outer

variable {fuel : Nat} (hfuel : 3 ≤ fuel)

include hfuel

theorem readOuterMember_eq_ok_iff {outer next : Outer} {key : String} {cs rest : List Char} :
    readOuterMember fuel outer key cs = .ok (next, rest)
      ↔ ∃ unread j, readColon cs = .ok ((), unread)
        ∧ readValue fuel (nestingLimit - 1) unread = .ok (j, rest) ∧ outer.Gains key j next := by
  unfold readOuterMember
  by_cases hkey : key = "loc"
  · rw [if_pos hkey]
    rcases hfound : outer.loc with _ | found
    · constructor
      · intro h
        obtain ⟨⟨⟨⟩, unread⟩, hcolon, h⟩ := bind_eq_ok_iff.mp h
        obtain ⟨⟨l, after⟩, hloc, h⟩ := bind_eq_ok_iff.mp h
        obtain ⟨rfl, rfl⟩ := Prod.mk.inj (Except.ok.inj h)
        obtain ⟨j, hvalue, hloc⟩ := (readLoc_eq_ok_iff hfuel (nestingLimit - 2)).mp hloc
        exact ⟨unread, j, mapError_eq_ok_iff.mp hcolon, hvalue, .loc hkey hfound hloc⟩
      · rintro ⟨unread, j, hcolon, hvalue, ⟨-, -, hloc⟩ | hother⟩
        · have hloc := (readLoc_eq_ok_iff hfuel (nestingLimit - 2)).mpr ⟨j, hvalue, hloc⟩
          refine bind_eq_ok_iff.mpr ⟨_, mapError_eq_ok_iff.mpr hcolon, ?_⟩
          exact bind_eq_ok_iff.mpr ⟨_, hloc, rfl⟩
        · exact absurd hkey hother
    · constructor
      · rintro ⟨⟩
      · rintro ⟨unread, j, -, -, ⟨-, hnone, -⟩ | hother⟩
        · rw [hfound] at hnone
          cases hnone
        · exact absurd hkey hother
  · rw [if_neg hkey]
    constructor
    · intro h
      obtain ⟨⟨ms, after⟩, hmember, h⟩ := bind_eq_ok_iff.mp h
      obtain ⟨rfl, rfl⟩ := Prod.mk.inj (Except.ok.inj h)
      obtain ⟨unread, j, hcolon, hvalue, rfl⟩ :=
        readMember_eq_ok_iff.mp (mapError_eq_ok_iff.mp hmember)
      exact ⟨unread, j, hcolon, hvalue, .other hkey⟩
    · rintro ⟨unread, j, hcolon, hvalue, ⟨hloc, -, -⟩ | -⟩
      · exact absurd hloc hkey
      · refine bind_eq_ok_iff.mpr ⟨((key, j) :: outer.members, rest), mapError_eq_ok_iff.mpr ?_, rfl⟩
        exact readMember_eq_ok_iff.mpr ⟨unread, j, hcolon, hvalue, rfl⟩

/-- Where the outermost node is read, its members are read as those of any object are. -/
theorem exists_members_of_outer {n : Nat} {first : Bool} {outer next : Outer} {cs rest : List Char}
    (h : ReadsMembers (readOuterMember fuel) n first outer cs next rest)
    (acc : List (String × Json)) :
    ∃ ms, outer.Takes ms next
      ∧ ReadsMembers (readMember (readValue fuel (nestingLimit - 1))) n first acc cs
          (ms.reverse ++ acc) rest := by
  induction h generalizing acc with
  | done hnext => exact ⟨[], Outer.takes_nil_iff.mpr rfl, .done hnext⟩
  | @member _ _ _ _ _ _ _ _ _ _ key hnext hkey hmember _ ih =>
    obtain ⟨unread, j, hcolon, hvalue, hgains⟩ := (readOuterMember_eq_ok_iff hfuel).mp hmember
    obtain ⟨ms, htakes, hrest⟩ := ih ((key, j) :: acc)
    refine ⟨(key, j) :: ms, Outer.takes_cons_iff.mpr ⟨_, hgains, htakes⟩, ?_⟩
    rw [List.reverse_cons, List.append_assoc]
    exact .member hnext hkey (readMember_eq_ok_iff.mpr ⟨unread, j, hcolon, hvalue, rfl⟩) hrest

/-- Where the members of an object are read, the outermost node is, if it can take them. -/
theorem exists_outer_of_members {n : Nat} {first : Bool} {acc result : List (String × Json)}
    {cs rest : List Char}
    (h : ReadsMembers (readMember (readValue fuel (nestingLimit - 1))) n first acc cs result rest) :
    ∃ ms, result = ms.reverse ++ acc ∧ ∀ outer next, outer.Takes ms next →
      ReadsMembers (readOuterMember fuel) n first outer cs next rest := by
  induction h with
  | done hnext =>
    refine ⟨[], rfl, fun outer next htakes => ?_⟩
    obtain rfl := Outer.takes_nil_iff.mp htakes
    exact .done hnext
  | @member _ _ _ _ _ _ _ _ _ _ key hnext hkey hmember _ ih =>
    obtain ⟨unread, j, hcolon, hvalue, rfl⟩ := readMember_eq_ok_iff.mp hmember
    obtain ⟨ms, rfl, hrest⟩ := ih
    refine ⟨(key, j) :: ms, by simp, fun outer next htakes => ?_⟩
    obtain ⟨mid, hgains, htakes⟩ := Outer.takes_cons_iff.mp htakes
    exact .member hnext hkey ((readOuterMember_eq_ok_iff hfuel).mpr ⟨unread, j, hcolon, hvalue, hgains⟩)
      (hrest mid next htakes)

end Outer

theorem splitLoc_eq_ok_iff {ms others : List (String × Json)} {l : Loc} :
    Decoder.splitLoc ms = .ok (l, others)
      ↔ ∃ next, Outer.Takes ⟨none, []⟩ ms next ∧ next.loc.getD Loc.synthetic = l
        ∧ next.members.reverse = others := by
  rw [Decoder.splitLoc, bind_eq_ok_iff]
  constructor
  · rintro ⟨⟨found, rest⟩, htake, h⟩
    obtain ⟨rfl, rfl⟩ := Prod.mk.inj (Except.ok.inj h)
    exact ⟨⟨found, rest.reverse⟩, ⟨rest, htake, by simp⟩, rfl, by simp⟩
  · rintro ⟨next, ⟨rest, htake, hmembers⟩, rfl, rfl⟩
    exact ⟨_, htake, by simp [hmembers, pure, Except.pure]⟩

theorem not_readsMembers_nil {ε σ : Type} {member : σ → String → List Char → Reading ε σ} {n : Nat}
    {acc result : σ} {rest : List Char} : ¬ReadsMembers member n true acc [] result rest := by
  rintro (⟨⟨⟩⟩ | ⟨⟨⟩⟩)

/-- **The outermost node is an object from which a location is taken out.** -/
theorem readOuter_eq_ok_iff {fuel : Nat} {cs rest : List Char} (hfuel : cs.length < fuel) {l : Loc}
    {others : List (String × Json)} :
    readOuter fuel cs = .ok ((l, others), rest)
      ↔ ∃ ms, readValue fuel nestingLimit cs = .ok (.obj ms, rest)
        ∧ Decoder.splitLoc ms = .ok (l, others) := by
  -- a brace and what stands behind it are two characters, which is enough for a location
  have hthree {c d : Char} {text : List Char} (hopen : skipBlanks cs = c :: d :: text) :
      3 ≤ fuel := by
    have hlength : (skipBlanks cs).length ≤ cs.length := (List.dropWhile_suffix isBlank).length_le
    rw [hopen, List.length_cons, List.length_cons] at hlength
    omega
  constructor
  · intro h
    unfold readOuter at h
    split at h
    next text hopen =>
      obtain ⟨⟨outer, after⟩, hread, h⟩ := bind_eq_ok_iff.mp h
      obtain ⟨⟨rfl, rfl⟩, rfl⟩ := Prod.mk.inj (Except.ok.inj h)
      have hreads := readMembers_eq_ok_iff.mp hread
      cases text with
      | nil => exact absurd hreads not_readsMembers_nil
      | cons d text =>
        obtain ⟨ms, htakes, hms⟩ := exists_members_of_outer (hthree hopen) hreads []
        have hvalue := readValue_eq_ok_iff.mpr (.obj hopen hms)
        rw [List.append_nil, List.reverse_reverse] at hvalue
        exact ⟨ms, hvalue, splitLoc_eq_ok_iff.mpr ⟨outer, htakes, rfl, rfl⟩⟩
    next => exact absurd h (refuse_ne_ok _ _ _)
  · rintro ⟨ms, hvalue, hsplit⟩
    obtain ⟨outer, htakes, rfl, rfl⟩ := splitLoc_eq_ok_iff.mp hsplit
    cases readValue_eq_ok_iff.mp hvalue with
    | scalar hscalar => exact absurd (readsScalar_readScalar _ _ _ hscalar) (by simp [isScalar])
    | @obj _ _ text _ members hopen hmembers =>
      cases text with
      | nil => exact absurd hmembers not_readsMembers_nil
      | cons d text =>
        obtain ⟨ms, rfl, houter⟩ := exists_outer_of_members (hthree hopen) hmembers
        rw [List.append_nil, List.reverse_reverse] at htakes
        rw [readOuter, hopen]
        exact bind_eq_ok_iff.mpr ⟨_, readMembers_eq_ok_iff.mpr (houter _ _ htakes), rfl⟩

theorem node_eq_ok_iff {α : Type} {make : Loc → List (String × Json) → Except Mismatch α}
    {text : String} {a : α} :
    node make text = .ok a
      ↔ ∃ ms l others, readText text.toList = .ok (.obj ms)
        ∧ Decoder.splitLoc ms = .ok (l, others) ∧ make l others = .ok a := by
  rw [node, whole, mapError_eq_ok_iff, bind_eq_ok_iff]
  constructor
  · rintro ⟨⟨_, rest⟩, hread, h⟩
    obtain ⟨_, hend, h⟩ := bind_eq_ok_iff.mp h
    obtain rfl := Except.ok.inj h
    obtain ⟨⟨⟨l, others⟩, after⟩, houter, h⟩ := bind_eq_ok_iff.mp hread
    obtain ⟨b, hmake, h⟩ := bind_eq_ok_iff.mp h
    obtain ⟨rfl, rfl⟩ := Prod.mk.inj (Except.ok.inj h)
    obtain ⟨ms, hvalue, hsplit⟩ := (readOuter_eq_ok_iff (Nat.lt_succ_self _)).mp houter
    refine ⟨ms, l, others, ?_, hsplit, mapError_eq_ok_iff.mp hmake⟩
    exact bind_eq_ok_iff.mpr ⟨_, hvalue, bind_eq_ok_iff.mpr ⟨_, mapError_eq_ok_iff.mp hend, rfl⟩⟩
  · rintro ⟨ms, l, others, htext, hsplit, hmake⟩
    obtain ⟨⟨j, rest⟩, hvalue, h⟩ := bind_eq_ok_iff.mp htext
    obtain ⟨_, hend, h⟩ := bind_eq_ok_iff.mp h
    obtain rfl := Except.ok.inj h
    have houter := (readOuter_eq_ok_iff (Nat.lt_succ_self _)).mpr ⟨ms, hvalue, hsplit⟩
    refine ⟨(a, rest), ?_, bind_eq_ok_iff.mpr ⟨_, mapError_eq_ok_iff.mpr hend, rfl⟩⟩
    exact bind_eq_ok_iff.mpr ⟨_, houter, bind_eq_ok_iff.mpr ⟨_, mapError_eq_ok_iff.mpr hmake, rfl⟩⟩

end Load

/-! ### Modules -/

/-- **Loading a text is reading its value.**  A text is loaded as a module exactly if it is read as a
    value that stands for the module. -/
theorem Module.load_eq_ok_iff {text : String} {m : Module} :
    Module.load text = .ok m ↔ ∃ j, Json.readText text.toList = .ok j ∧ Module.ofJson j = .ok m := by
  rw [Module.load, Load.node_eq_ok_iff]
  constructor
  · rintro ⟨ms, l, others, htext, hsplit, hread⟩
    refine ⟨.obj ms, htext, bind_eq_ok_iff.mpr ⟨ms, rfl, ?_⟩⟩
    exact bind_eq_ok_iff.mpr ⟨(l, others), hsplit, hread⟩
  · rintro ⟨j, htext, h⟩
    obtain ⟨ms, hmembers, h⟩ := bind_eq_ok_iff.mp h
    obtain ⟨⟨l, others⟩, hsplit, hread⟩ := bind_eq_ok_iff.mp h
    cases j with
    | obj members =>
      obtain rfl := Except.ok.inj hmembers
      exact ⟨members, l, others, htext, hsplit, hread⟩
    | _ => cases hmembers

end ScriptTree
