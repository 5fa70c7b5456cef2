/-
  ScriptTree/Proofs/Brackets.lean
  ===============================
  **Cutting a text at its brackets.**  A reader of the text of an expression has to know two things
  only: which brackets are open, and whether a string is open (`Cursor`).  A text is `Whole` if such a
  reader ends where it began and never meets, outside of all brackets, a closing bracket or a
  character that ends the text.  So where a whole text ends is decided by the text and the character
  behind it (`Whole.append_inj`), and a list of whole texts is determined by what is written with
  separators between them (`intercalate_inj`).

  One layer of an expression is made of whole texts: it is a stem, that is a word, a string or a group
  in brackets, or an expression with a tail behind it.  A text is the text of one layer only
  (`Layer.text_injective`).
-/
import ScriptTree.Proofs.Cursor

namespace ScriptTree

/-! ### Whole texts -/

/-- A text without open ends: its brackets match, and what ends a text is inside of them.  The texts
    of strings are taken as they are. -/
def Whole (stops : Char → Bool) (text : List Char) : Prop :=
  scan .verbatim stops (.code []) text = some (.code [])

/-- A rest with which a text that stands before it ends. -/
def Ends (stops : Char → Bool) (rest : List Char) : Prop :=
  ∀ c ∈ rest.head?, (Cursor.code []).next .verbatim stops c = none

section Whole

variable {stops : Char → Bool} {a b : List Char}

theorem ends_nil : Ends stops [] := by
  intro c hc
  cases hc

theorem ends_cons {c : Char} (h : (Cursor.code []).next .verbatim stops c = none)
    (rest : List Char) : Ends stops (c :: rest) := by
  intro d hd
  obtain rfl := Option.some.inj hd
  exact h

theorem whole_nil : Whole stops [] := rfl

theorem Whole.append (ha : Whole stops a) (hb : Whole stops b) : Whole stops (a ++ b) := by
  rw [Whole, scan, reads_append, ← scan, ha]
  exact hb

theorem Whole.of_append (ha : Whole stops a) (hab : Whole stops (a ++ b)) : Whole stops b := by
  rw [Whole, scan, reads_append, ← scan, ha] at hab
  exact hab

theorem Whole.mono {stops' : Char → Bool} (ha : Whole stops a)
    (hstops : ∀ c, stops' c = true → stops c = true) : Whole stops' a :=
  scan_mono hstops ha

/-- **Where a whole text ends** is decided by what is read. -/
theorem Whole.append_inj (ha : Whole stops a) (hb : Whole stops b) {r t : List Char}
    (hr : Ends stops r) (ht : Ends stops t) (h : a ++ r = b ++ t) : a = b ∧ r = t := by
  have hlonger : ∀ {a b r t : List Char}, Whole stops a → Whole stops b → Ends stops r →
      (∃ z, b = a ++ z ∧ r = z ++ t) → a = b ∧ r = t := by
    rintro a b r t ha hb hr ⟨z, rfl, rfl⟩
    cases z with
    | nil => simp
    | cons c z =>
      have hrest := ha.of_append hb
      rw [Whole, scan, reads_cons, hr c rfl] at hrest
      cases hrest
  rcases List.append_eq_append_iff.mp h with hz | hz
  · exact hlonger ha hb hr hz
  · obtain ⟨hba, htr⟩ := hlonger hb ha ht hz
    exact ⟨hba.symm, htr.symm⟩

theorem Whole.inside (ha : Whole freely a) (b : Bracket) :
    scan .verbatim stops (.code [b]) a = some (.code [b]) :=
  scan_within (List.cons_ne_nil b []) ha

/-- What stands in brackets has no end outside of them. -/
theorem whole_group (b : Bracket) (ha : Whole freely a) :
    Whole stops (b.opening :: a ++ [b.closing]) := by
  rw [Whole, scan, List.cons_append, reads_cons, Cursor.next_opening, Option.bind_some, reads_append,
    ← scan, ha.inside, Option.bind_some, reads_cons, Cursor.next_closing]
  rfl

/-- A text that breaks off inside of brackets has an open end. -/
theorem not_whole_group (bracket : Bracket) (hab : Whole freely (a ++ b)) :
    ¬Whole stops (bracket.opening :: a) := by
  intro h
  rw [Whole, scan, reads_append] at hab
  obtain ⟨s, hs, -⟩ := Option.bind_eq_some_iff.mp hab
  have hinside : scan .verbatim stops (.code [bracket]) a = some (s.within [bracket]) :=
    scan_within (List.cons_ne_nil bracket []) hs
  rw [Whole, scan, reads_cons, Cursor.next_opening, Option.bind_some, ← scan, hinside] at h
  simp [Cursor.within] at h

theorem whole_string (h : '"' ∉ a) : Whole stops ('"' :: a ++ ['"']) := by
  have hopen : (Cursor.code []).next .verbatim stops '"' = some (.quoted []) := rfl
  rw [Whole, scan, List.cons_append, reads_cons, hopen, Option.bind_some, reads_append, ← scan,
    scan_quoted (admits_verbatim.mpr h)]
  rfl

theorem not_whole_string (h : '"' ∉ a) : ¬Whole stops ('"' :: a) := by
  have hopen : (Cursor.code []).next .verbatim stops '"' = some (.quoted []) := rfl
  rw [Whole, scan, reads_cons, hopen, Option.bind_some, ← scan, scan_quoted (admits_verbatim.mpr h)]
  simp

end Whole

/-! ### Separated texts -/

/-- What stands between the parts of a list. -/
inductive Separator where
  | blank
  | comma
  deriving DecidableEq

namespace Separator

def chars : Separator → List Char
  | .blank => [' ']
  | .comma => [',', ' ']

/-- Where a part of the list ends. -/
def stops : Separator → Char → Bool
  | .blank, c => c = ' '
  | .comma, c => c = ','

/-- A part of a list that can be told from the next. -/
def Part (sep : Separator) (text : List Char) : Prop := text ≠ [] ∧ Whole sep.stops text

/-- The parts behind the first, each with the separator before it. -/
def later (sep : Separator) (parts : List (List Char)) : List Char :=
  parts.flatMap fun part => sep.chars ++ part

variable {sep : Separator}

theorem intercalate_cons (part : List Char) (parts : List (List Char)) :
    sep.chars.intercalate (part :: parts) = part ++ sep.later parts := by
  induction parts generalizing part with
  | nil => simp [later]
  | cons next parts ih =>
    rw [List.intercalate_cons_cons, ih, later, later, List.flatMap_cons]
    simp

theorem ends_later (parts : List (List Char)) : Ends sep.stops (sep.later parts) := by
  cases parts with
  | nil => exact ends_nil
  | cons part parts =>
    cases sep with
    | blank => exact ends_cons rfl _
    | comma => exact ends_cons rfl _

theorem later_ne_nil (part : List Char) (parts : List (List Char)) : sep.later (part :: parts) ≠ [] := by
  cases sep <;> simp [later, chars]

theorem later_inj {ps qs : List (List Char)} (hps : ∀ p ∈ ps, sep.Part p) (hqs : ∀ q ∈ qs, sep.Part q)
    (h : sep.later ps = sep.later qs) : ps = qs := by
  induction ps generalizing qs with
  | nil =>
    cases qs with
    | nil => rfl
    | cons q qs => exact absurd h.symm (later_ne_nil q qs)
  | cons p ps ih =>
    cases qs with
    | nil => exact absurd h (later_ne_nil p ps)
    | cons q qs =>
      rw [List.forall_mem_cons] at hps hqs
      simp only [later, List.flatMap_cons, List.append_assoc, List.append_cancel_left_eq] at h
      obtain ⟨rfl, hlater⟩ := hps.1.2.append_inj hqs.1.2 (ends_later ps) (ends_later qs) h
      rw [ih hps.2 hqs.2 hlater]

/-- **A list is determined by its text**, if each part can be told from the next. -/
theorem intercalate_inj {ps qs : List (List Char)} (hps : ∀ p ∈ ps, sep.Part p)
    (hqs : ∀ q ∈ qs, sep.Part q) (h : sep.chars.intercalate ps = sep.chars.intercalate qs) :
    ps = qs := by
  cases ps with
  | nil =>
    cases qs with
    | nil => rfl
    | cons q qs =>
      rw [intercalate_cons] at h
      exact absurd (List.append_eq_nil_iff.mp h.symm).1 (hqs q List.mem_cons_self).1
  | cons p ps =>
    cases qs with
    | nil =>
      rw [intercalate_cons] at h
      exact absurd (List.append_eq_nil_iff.mp h).1 (hps p List.mem_cons_self).1
    | cons q qs =>
      rw [List.forall_mem_cons] at hps hqs
      rw [intercalate_cons, intercalate_cons] at h
      obtain ⟨rfl, hlater⟩ := hps.1.2.append_inj hqs.1.2 (ends_later ps) (ends_later qs) h
      rw [later_inj hps.2 hqs.2 hlater]

theorem Part.inside {part : List Char} (h : sep.Part part) : Whole freely part := scan_freely h.2

theorem whole_intercalate {parts : List (List Char)} (h : ∀ p ∈ parts, sep.Part p) :
    Whole freely (sep.chars.intercalate parts) := by
  have hsep : Whole freely sep.chars := by cases sep <;> rfl
  have hlater : ∀ ps : List (List Char), (∀ p ∈ ps, sep.Part p) →
      Whole freely (sep.later ps) := by
    intro ps hps
    induction ps with
    | nil => exact whole_nil
    | cons p ps ih =>
      rw [List.forall_mem_cons] at hps
      exact (hsep.append hps.1.inside).append (ih hps.2)
  cases parts with
  | nil => exact whole_nil
  | cons p parts =>
    rw [List.forall_mem_cons] at h
    rw [intercalate_cons]
    exact h.1.inside.append (hlater parts h.2)

end Separator

/-! ### Layers -/

namespace Bracket

theorem opening_inj {b c : Bracket} (h : b.opening = c.opening) : b = c := by
  cases b <;> cases c <;> first | rfl | cases h

/-- What stands between the parts of an expression in brackets. -/
def separator : Bracket → Separator
  | .round => .blank
  | .square | .curly => .comma

/-- Parts with a separator between them, in brackets. -/
def around (b : Bracket) (sep : Separator) (parts : List (List Char)) : List Char :=
  b.opening :: sep.chars.intercalate parts ++ [b.closing]

variable {b c : Bracket} {sep : Separator} {ps qs : List (List Char)}

theorem around_inj (hps : ∀ p ∈ ps, sep.Part p) (hqs : ∀ q ∈ qs, sep.Part q)
    (h : b.around sep ps = b.around sep qs) : ps = qs :=
  Separator.intercalate_inj hps hqs (List.append_cancel_right (List.cons.inj h).2)

theorem whole_around {stops : Char → Bool} (hps : ∀ p ∈ ps, sep.Part p) :
    Whole stops (b.around sep ps) :=
  whole_group b (Separator.whole_intercalate hps)

end Bracket

/-- What ends an expression outside of brackets. -/
def isSeparator (c : Char) : Bool := c = ' ' || c = ',' || c = ':'

theorem Separator.isSeparator_of_stops (sep : Separator) {c : Char} (h : sep.stops c = true) :
    isSeparator c = true := by
  cases sep with
  | blank => simp_all [stops, isSeparator]
  | comma => simp_all [stops, isSeparator]

/-- The characters of names and integers. -/
def isWordChar (c : Char) : Bool := c.isAlphanum || c = '_' || c = '$' || c = '-'

def startsTail (c : Char) : Bool := c = '.' || c = '[' || c = '('

namespace Bracket

theorem not_isWordChar_opening (b : Bracket) : ¬isWordChar b.opening = true := by
  cases b <;> decide

theorem opening_ne_quote (b : Bracket) : b.opening ≠ '"' := by
  cases b <;> decide

theorem opening_ne_point (b : Bracket) : b.opening ≠ '.' := by
  cases b <;> decide

end Bracket

theorem next_wordChar {stops : Char → Bool} (hstops : ∀ c, stops c = true → isSeparator c = true)
    {c : Char} (hc : isWordChar c = true) :
    (Cursor.code []).next .verbatim stops c = some (.code []) := by
  have hother : ∀ d, isWordChar d = false → c ≠ d := by
    rintro d hd rfl
    rw [hd] at hc
    cases hc
  apply Cursor.next_ordinary (hother '"' rfl)
  · exact fun b => (hother b.opening (by cases b <;> rfl)).symm
  · exact fun b => (hother b.closing (by cases b <;> rfl)).symm
  · by_contra hstop
    have hsep := hstops c (by simpa using hstop)
    simp [isSeparator, hother ' ' rfl, hother ',' rfl, hother ':' rfl] at hsep

theorem whole_word {stops : Char → Bool} (hstops : ∀ c, stops c = true → isSeparator c = true)
    {w : List Char} (hw : ∀ c ∈ w, isWordChar c = true) : Whole stops w :=
  reads_of_forall fun c hc => next_wordChar hstops (hw c hc)

theorem word_ne_cons {w rest : List Char} {c : Char} (hw : ∀ c ∈ w, isWordChar c = true)
    (hc : ¬isWordChar c = true) : w ≠ c :: rest := by
  rintro rfl
  exact hc (hw c List.mem_cons_self)

/-- Something that is written without taking it apart: nothing in it is a whole text with a tail. -/
def Atomic (text : List Char) : Prop :=
  ∀ front c back, text = front ++ c :: back → front ≠ [] → startsTail c = true →
    ¬Whole isSeparator front

theorem atomic_word {w : List Char} (hw : ∀ c ∈ w, isWordChar c = true) : Atomic w := by
  rintro front c back rfl - hc -
  have hword := hw c (by simp)
  simp only [startsTail, Bool.or_eq_true, decide_eq_true_eq] at hc
  rcases hc with (rfl | rfl) | rfl <;> cases hword

theorem atomic_member {name : List Char} (h : ∀ c ∈ name, isWordChar c = true) :
    Atomic ('.' :: name) := by
  intro front c back hsplit hfront hc
  cases front with
  | nil => exact absurd rfl hfront
  | cons d front =>
    -- behind the point there is a word, and no tail starts in a word
    obtain ⟨-, rfl⟩ := List.cons.inj hsplit
    have hword := h c (by simp)
    simp only [startsTail, Bool.or_eq_true, decide_eq_true_eq] at hc
    rcases hc with (rfl | rfl) | rfl <;> cases hword

/-- A text between two marks is cut behind the first of them only. -/
theorem cut_of_cons_concat {o d c : Char} {text front back : List Char}
    (h : o :: text ++ [d] = front ++ c :: back) (hfront : front ≠ []) :
    ∃ inner more, front = o :: inner ∧ text = inner ++ more := by
  cases front with
  | nil => exact absurd rfl hfront
  | cons p inner =>
    obtain ⟨rfl, hrest⟩ : o = p ∧ text ++ [d] = inner ++ c :: back := List.cons.inj h
    rcases List.append_eq_append_iff.mp hrest with ⟨z, rfl, hz⟩ | ⟨z, rfl, -⟩
    · cases z with
      | nil => exact ⟨text, [], by simp, by simp⟩
      | cons e z => simp at hz
    · exact ⟨inner, z, rfl, rfl⟩

theorem atomic_string {text : List Char} (h : '"' ∉ text) : Atomic ('"' :: text ++ ['"']) := by
  intro front c back hsplit hfront _
  obtain ⟨inner, more, rfl, rfl⟩ := cut_of_cons_concat hsplit hfront
  exact not_whole_string fun hmem => h (List.mem_append_left _ hmem)

theorem atomic_around {b : Bracket} {sep : Separator} {parts : List (List Char)}
    (h : ∀ p ∈ parts, sep.Part p) : Atomic (b.around sep parts) := by
  intro front c back hsplit hfront _
  obtain ⟨inner, more, rfl, hinner⟩ := cut_of_cons_concat hsplit hfront
  exact not_whole_group b (hinner ▸ Separator.whole_intercalate h)

/-- What an expression starts with. -/
inductive Stem where
  | word (text : List Char)
  | string (text : List Char)
  | group (b : Bracket) (parts : List (List Char))

namespace Stem

def text : Stem → List Char
  | .word text => text
  | .string text => '"' :: text ++ ['"']
  | .group b parts => b.around b.separator parts

def Good : Stem → Prop
  | .word text => text ≠ [] ∧ ∀ c ∈ text, isWordChar c = true
  | .string text => '"' ∉ text
  | .group b parts => ∀ p ∈ parts, b.separator.Part p

theorem atomic {p : Stem} (h : p.Good) : Atomic p.text := by
  cases p with
  | word text => exact atomic_word h.2
  | string text => exact atomic_string h
  | group b parts => exact atomic_around h

theorem whole {p : Stem} (h : p.Good) : Whole isSeparator p.text := by
  cases p with
  | word text => exact whole_word (fun c hc => hc) h.2
  | string text => exact whole_string h
  | group b parts => exact Bracket.whole_around h

/-- A stem can be told from something that is spread. -/
theorem head_text {p : Stem} (h : p.Good) : ∃ c rest, p.text = c :: rest ∧ c ≠ '.' := by
  cases p with
  | word text =>
    cases text with
    | nil => exact absurd rfl h.1
    | cons c text =>
      refine ⟨c, text, rfl, ?_⟩
      rintro rfl
      exact absurd (h.2 '.' List.mem_cons_self) (by decide)
  | string text => exact ⟨'"', _, rfl, by decide⟩
  | group b parts => exact ⟨b.opening, _, rfl, b.opening_ne_point⟩

theorem text_inj {p q : Stem} (hp : p.Good) (hq : q.Good) (h : p.text = q.text) : p = q := by
  cases p with
  | word v =>
    cases q with
    | word w => exact congrArg word h
    | string s => exact absurd h (word_ne_cons hp.2 (by decide))
    | group b ps => exact absurd h (word_ne_cons hp.2 b.not_isWordChar_opening)
  | string s =>
    cases q with
    | word w => exact absurd h.symm (word_ne_cons hq.2 (by decide))
    | string t => exact congrArg string (List.append_cancel_right (List.cons.inj h).2)
    | group b ps => exact absurd (List.cons.inj h).1.symm b.opening_ne_quote
  | group b ps =>
    cases q with
    | word w => exact absurd h.symm (word_ne_cons hq.2 b.not_isWordChar_opening)
    | string t => exact absurd (List.cons.inj h).1 b.opening_ne_quote
    | group c qs =>
      obtain rfl : b = c := Bracket.opening_inj (List.cons.inj h).1
      rw [Bracket.around_inj hp hq h]

end Stem

/-- What may follow an expression and make a longer one of it. -/
inductive Tail where
  | member (name : List Char)
  | applied (b : Bracket) (parts : List (List Char))

namespace Tail

def text : Tail → List Char
  | .member name => '.' :: name
  | .applied b parts => b.around .comma parts

def Good : Tail → Prop
  | .member name => ∀ c ∈ name, isWordChar c = true
  | .applied b parts => b ≠ .curly ∧ ∀ p ∈ parts, Separator.comma.Part p

theorem atomic {t : Tail} (h : t.Good) : Atomic t.text := by
  cases t with
  | member name => exact atomic_member h
  | applied b parts => exact atomic_around h.2

theorem whole {t : Tail} (h : t.Good) : Whole isSeparator t.text := by
  cases t with
  | member name =>
    have hpoint : Whole isSeparator ['.'] := rfl
    exact hpoint.append (whole_word (fun _ hc => hc) h)
  | applied b parts => exact Bracket.whole_around h.2

theorem head_text {t : Tail} (h : t.Good) : ∃ c rest, t.text = c :: rest ∧ startsTail c = true := by
  cases t with
  | member name => exact ⟨'.', name, rfl, rfl⟩
  | applied b parts =>
    refine ⟨b.opening, _, rfl, ?_⟩
    cases b with
    | round => rfl
    | square => rfl
    | curly => exact absurd rfl h.1

theorem text_inj {s t : Tail} (hs : s.Good) (ht : t.Good) (h : s.text = t.text) : s = t := by
  cases s with
  | member name =>
    cases t with
    | member name' => exact congrArg member (List.cons.inj h).2
    | applied b ps => exact absurd (List.cons.inj h).1.symm b.opening_ne_point
  | applied b ps =>
    cases t with
    | member name => exact absurd (List.cons.inj h).1 b.opening_ne_point
    | applied c qs =>
      obtain rfl : b = c := Bracket.opening_inj (List.cons.inj h).1
      rw [Bracket.around_inj hs.2 ht.2 h]

end Tail

/-- An expression that is not spread, as a part of another one. -/
structure Solid (text : List Char) : Prop where
  whole : Whole isSeparator text
  head : ∃ c rest, text = c :: rest ∧ c ≠ '.'

namespace Solid

variable {text : List Char}

theorem ne_nil (h : Solid text) : text ≠ [] := by
  obtain ⟨c, rest, rfl, -⟩ := h.head
  exact List.cons_ne_nil c rest

theorem part (h : Solid text) (sep : Separator) : sep.Part text :=
  ⟨h.ne_nil, h.whole.mono fun _ => sep.isSeparator_of_stops⟩

theorem ne_point (h : Solid text) {rest : List Char} : text ≠ '.' :: rest := by
  rintro rfl
  obtain ⟨c, more, hc, hne⟩ := h.head
  exact hne (List.cons.inj hc).1.symm

end Solid

/-- One layer of an expression, with its parts written out. -/
inductive Layer where
  | stem (p : Stem)
  | tailed (base : List Char) (tail : Tail)
  | spread (rest : List Char)

namespace Layer

def text : Layer → List Char
  | .stem p => p.text
  | .tailed base tail => base ++ tail.text
  | .spread rest => '.' :: '.' :: '.' :: rest

section Text

variable (base text rest : List Char) (parts : List (List Char))

@[simp] theorem text_word : (stem (.word text)).text = text := rfl

@[simp] theorem text_string : (stem (.string text)).text = '"' :: text ++ ['"'] := rfl

@[simp] theorem text_round :
    (stem (.group .round parts)).text = '(' :: [' '].intercalate parts ++ [')'] := rfl

@[simp] theorem text_square :
    (stem (.group .square parts)).text = '[' :: [',', ' '].intercalate parts ++ [']'] := rfl

@[simp] theorem text_curly :
    (stem (.group .curly parts)).text = '\x7b' :: [',', ' '].intercalate parts ++ ['\x7d'] := rfl

@[simp] theorem text_member : (tailed base (.member text)).text = base ++ '.' :: text := rfl

@[simp] theorem text_index :
    (tailed base (.applied .square parts)).text =
      base ++ '[' :: [',', ' '].intercalate parts ++ [']'] := by
  rw [List.append_assoc]
  rfl

@[simp] theorem text_call :
    (tailed base (.applied .round parts)).text =
      base ++ '(' :: [',', ' '].intercalate parts ++ [')'] := by
  rw [List.append_assoc]
  rfl

@[simp] theorem text_spread : (spread rest).text = '.' :: '.' :: '.' :: rest := rfl

end Text

def Good : Layer → Prop
  | .stem p => p.Good
  | .tailed base tail => Solid base ∧ tail.Good
  | .spread rest => Solid rest

theorem whole {l : Layer} (h : l.Good) : Whole isSeparator l.text := by
  cases l with
  | stem p => exact p.whole h
  | tailed base tail => exact h.1.whole.append (Tail.whole h.2)
  | spread rest =>
    have hpoints : Whole isSeparator ['.', '.', '.'] := rfl
    exact hpoints.append (Solid.whole h)

theorem part {l : Layer} (h : l.Good) (sep : Separator) : sep.Part l.text := by
  refine ⟨?_, (whole h).mono fun _ => sep.isSeparator_of_stops⟩
  cases l with
  | stem p =>
    obtain ⟨c, rest, hrest, -⟩ := Stem.head_text h
    rw [text, hrest]
    exact List.cons_ne_nil c rest
  | tailed base tail => exact List.append_ne_nil_of_left_ne_nil h.1.ne_nil _
  | spread rest => exact List.cons_ne_nil _ _

theorem solid_stem {p : Stem} (h : p.Good) : Solid (stem p).text :=
  ⟨Stem.whole h, Stem.head_text h⟩

theorem solid_tailed {base : List Char} {tail : Tail} (h : (tailed base tail).Good) :
    Solid (tailed base tail).text := by
  refine ⟨whole h, ?_⟩
  obtain ⟨c, rest, rfl, hc⟩ := h.1.head
  exact ⟨c, _, rfl, hc⟩

theorem solid {l : Layer} (h : l.Good) (hspread : ∀ rest, l ≠ .spread rest) : Solid l.text := by
  cases l with
  | stem p => exact solid_stem h
  | tailed base tail => exact solid_tailed h
  | spread rest => exact absurd rfl (hspread rest)

theorem stem_ne_tailed {p : Stem} {base : List Char} {tail : Tail} (hp : p.Good)
    (ht : (tailed base tail).Good) : (stem p).text ≠ (tailed base tail).text := by
  intro h
  obtain ⟨c, rest, hrest, hc⟩ := Tail.head_text ht.2
  refine Stem.atomic hp base c rest ?_ ht.1.ne_nil hc ht.1.whole
  rw [← hrest]
  exact h

/-- The base of one of two equal texts does not end inside of the tail of the other. -/
theorem no_more_base {base more : List Char} {s t : Tail} (hbase : Solid base)
    (hmore : Solid (base ++ more)) (hs : s.Good) (ht : t.Good) (h : s.text = more ++ t.text) :
    more = [] := by
  by_contra hne
  obtain ⟨c, rest, hrest, hc⟩ := Tail.head_text ht
  exact Tail.atomic hs more c rest (hrest ▸ h) hne hc (hbase.whole.of_append hmore.whole)

theorem tailed_inj {base base' : List Char} {s t : Tail} (hs : (tailed base s).Good)
    (ht : (tailed base' t).Good) (h : base ++ s.text = base' ++ t.text) : base = base' ∧ s = t := by
  rcases List.append_eq_append_iff.mp h with ⟨more, rfl, hmore⟩ | ⟨more, rfl, hmore⟩
  · obtain rfl := no_more_base hs.1 ht.1 hs.2 ht.2 hmore
    exact ⟨by simp, Tail.text_inj hs.2 ht.2 hmore⟩
  · obtain rfl := no_more_base ht.1 hs.1 ht.2 hs.2 hmore
    exact ⟨by simp, (Tail.text_inj ht.2 hs.2 hmore).symm⟩

/-- **A text can be cut in one way only.** -/
theorem text_injective {k l : Layer} (hk : k.Good) (hl : l.Good) (h : k.text = l.text) : k = l := by
  cases k with
  | stem p =>
    cases l with
    | stem q => rw [Stem.text_inj hk hl h]
    | tailed base tail => exact absurd h (stem_ne_tailed hk hl)
    | spread rest => exact absurd h (solid_stem hk).ne_point
  | tailed base tail =>
    cases l with
    | stem q => exact absurd h.symm (stem_ne_tailed hl hk)
    | tailed base' tail' =>
      obtain ⟨rfl, rfl⟩ := tailed_inj hk hl h
      rfl
    | spread rest => exact absurd h (solid_tailed hk).ne_point
  | spread rest =>
    cases l with
    | stem q => exact absurd h.symm (solid_stem hl).ne_point
    | tailed base tail => exact absurd h.symm (solid_tailed hl).ne_point
    | spread rest' =>
      obtain rfl : rest = rest' := by simpa [text] using h
      rfl

end Layer

end ScriptTree
