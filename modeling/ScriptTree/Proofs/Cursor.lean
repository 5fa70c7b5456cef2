/-
  ScriptTree/Proofs/Cursor.lean
  =============================
  **Reading a text one character at a time.**  A reader has a state and goes on until a character
  stops it (`reads`).  What holds of all readers is said once, for any states.

  Two of them are needed here.  One only knows whether it is in a string (`Mode`).  The other keeps the
  open brackets too, the innermost first, and is stopped by a bracket that does not match and, outside
  of all brackets, by characters of its choice (`Cursor`).

  What ends a string is a matter of who reads (`Quoting`).  In a script a backslash takes its meaning
  from the next character, so that a quote behind it ends nothing, and no string goes over the end of
  a line.  Nothing of this holds where the text between the quotes is taken as it is.
-/
import Mathlib.Data.List.Basic

namespace ScriptTree

/-! ### Readers -/

/-- Where a reader comes to that takes one character after the other, unless one stops it. -/
def reads {σ : Type} (next : σ → Char → Option σ) (s : σ) (text : List Char) : Option σ :=
  text.foldlM next s

section Reads

variable {σ τ : Type} {next : σ → Char → Option σ} {next' : τ → Char → Option τ}

theorem reads_cons (s : σ) (c : Char) (text : List Char) :
    reads next s (c :: text) = (next s c).bind fun t => reads next t text :=
  List.foldlM_cons

theorem reads_append (s : σ) (front back : List Char) :
    reads next s (front ++ back) = (reads next s front).bind fun t => reads next t back :=
  List.foldlM_append

/-- A reader that can follow each step of another one can follow it to the end. -/
theorem reads_map {f : σ → τ} (h : ∀ s c t, next s c = some t → next' (f s) c = some (f t))
    {s t : σ} {text : List Char} (hreads : reads next s text = some t) :
    reads next' (f s) text = some (f t) := by
  induction text generalizing s with
  | nil =>
    obtain rfl : s = t := Option.some.inj hreads
    rfl
  | cons c text ih =>
    rw [reads_cons] at hreads ⊢
    obtain ⟨u, hu, hrest⟩ := Option.bind_eq_some_iff.mp hreads
    rw [h s c u hu]
    exact ih hrest

/-- A reader that none of the characters moves. -/
theorem reads_of_forall {s : σ} {text : List Char} (h : ∀ c ∈ text, next s c = some s) :
    reads next s text = some s := by
  induction text with
  | nil => rfl
  | cons c text ih =>
    obtain ⟨hc, htext⟩ := List.forall_mem_cons.mp h
    rw [reads_cons, hc]
    exact ih htext

end Reads

/-! ### Strings -/

/-- How the text between two quotes is read. -/
inductive Quoting where
  /-- As it is, up to the next quote. -/
  | verbatim
  /-- As in a script, with escapes and within one line. -/
  | script
  deriving DecidableEq

/-- The characters that mean something in a string. -/
def Quoting.marks : Quoting → List Char
  | .verbatim => ['"']
  | .script => ['"', '\\', '\n', '\x0d']

/-- A text that means itself between two quotes. -/
def Quoting.Admits (q : Quoting) (text : List Char) : Prop := ∀ c ∈ text, c ∉ q.marks

instance (q : Quoting) (text : List Char) : Decidable (q.Admits text) :=
  decidable_of_iff ((text.all fun c => !q.marks.contains c) = true) (by simp [Quoting.Admits])

theorem admits_verbatim {text : List Char} : Quoting.verbatim.Admits text ↔ '"' ∉ text := by
  constructor
  · intro h hmem
    exact h '"' hmem List.mem_cons_self
  · rintro h c hc hmark
    obtain rfl := List.mem_singleton.mp hmark
    exact h hc

/-- Whether a reader is in a string, and behind a backslash in it. -/
inductive Mode where
  | code
  | quoted
  | escaped
  deriving DecidableEq

/-- One character on.  No line ends in a string of a script. -/
def Mode.next (q : Quoting) : Mode → Char → Option Mode
  | .code, c => some (if c = '"' then .quoted else .code)
  | .escaped, _ => some .quoted
  | .quoted, c =>
    if c ∉ q.marks then some .quoted
    else if c = '"' then some .code
    else if c = '\\' then some .escaped
    else none

namespace Mode

variable {q : Quoting} {c : Char}

theorem next_code (hc : c ≠ '"') : code.next q c = some .code := by simp [next, hc]

/-- Only a quote leads out of a string. -/
theorem eq_code_of_next {m : Mode} (hc : c ≠ '"') (h : m.next q c = some .code) : m = .code := by
  cases m with
  | code => rfl
  | escaped => cases h
  | quoted =>
    simp only [next, if_neg hc] at h
    split at h
    · cases h
    split at h <;> cases h

theorem reads_quoted {text : List Char} (h : q.Admits text) :
    reads (next q) .quoted text = some .quoted :=
  reads_of_forall fun c hc => if_pos (h c hc)

end Mode

/-! ### Brackets -/

inductive Bracket where
  | round
  | square
  | curly
  deriving DecidableEq

namespace Bracket

def opening : Bracket → Char
  | .round => '('
  | .square => '['
  | .curly => '\x7b'

def closing : Bracket → Char
  | .round => ')'
  | .square => ']'
  | .curly => '\x7d'

def all : List Bracket := [.round, .square, .curly]

def opened? (c : Char) : Option Bracket := all.find? fun b => b.opening = c

def closed? (c : Char) : Option Bracket := all.find? fun b => b.closing = c

/-- What is open behind a closing bracket, which must match the innermost open one. -/
def close (b : Bracket) : List Bracket → Option (List Bracket)
  | [] => none
  | inner :: outer => if inner = b then some outer else none

/-- What is open behind a character of the code.  Outside of all brackets some characters stop the
    reader. -/
def behind (stops : Char → Bool) (opened : List Bracket) (c : Char) : Option (List Bracket) :=
  match opened? c, closed? c with
  | some b, _ => some (b :: opened)
  | none, some b => close b opened
  | none, none => if stops c && opened.isEmpty then none else some opened

/-- A character that is no bracket. -/
theorem opened?_eq_none {c : Char} (h : ∀ b : Bracket, b.opening ≠ c) : opened? c = none :=
  List.find?_eq_none.mpr fun b _ hb => h b (of_decide_eq_true hb)

theorem closed?_eq_none {c : Char} (h : ∀ b : Bracket, b.closing ≠ c) : closed? c = none :=
  List.find?_eq_none.mpr fun b _ hb => h b (of_decide_eq_true hb)

/-- With more brackets around, fewer characters stop the reader. -/
theorem behind_append {stops stops' : Char → Bool} {opened opened' outer : List Bracket} {c : Char}
    (hstops : outer = [] → stops' c = true → stops c = true)
    (h : behind stops opened c = some opened') :
    behind stops' (opened ++ outer) c = some (opened' ++ outer) := by
  unfold behind at h ⊢
  split at h
  · obtain rfl := Option.some.inj h
    rfl
  · rcases opened with _ | ⟨inner, opened⟩
    · cases h
    · simp only [close, List.cons_append] at h ⊢
      split at h
      · next hb =>
        obtain rfl := Option.some.inj h
        rw [if_pos hb]
      · cases h
  · split at h
    · cases h
    · next hgo =>
      obtain rfl := Option.some.inj h
      rw [if_neg]
      rw [Bool.and_eq_true, List.isEmpty_iff] at hgo ⊢
      rintro ⟨hstop, hnil⟩
      obtain ⟨rfl, rfl⟩ := List.append_eq_nil_iff.mp hnil
      exact hgo ⟨hstops rfl hstop, rfl⟩

end Bracket

/-! ### Brackets outside of strings -/

/-- Where the reader of a text is: in a string or not, and in these brackets, the innermost first. -/
structure Cursor where
  mode : Mode
  opened : List Bracket
  deriving DecidableEq

namespace Cursor

abbrev code (opened : List Bracket) : Cursor := ⟨.code, opened⟩

abbrev quoted (opened : List Bracket) : Cursor := ⟨.quoted, opened⟩

/-- The brackets that are open behind a character.  Those in strings do not count. -/
def openedBehind (stops : Char → Bool) (s : Cursor) (c : Char) : Option (List Bracket) :=
  if s.mode = .code ∧ c ≠ '"' then Bracket.behind stops s.opened c else some s.opened

/-- One character on. -/
def next (q : Quoting) (stops : Char → Bool) (s : Cursor) (c : Char) : Option Cursor :=
  (s.mode.next q c).bind fun mode => (s.openedBehind stops c).map fun opened => ⟨mode, opened⟩

/-- The same place inside of some more brackets. -/
def within (outer : List Bracket) (s : Cursor) : Cursor := ⟨s.mode, s.opened ++ outer⟩

variable {q : Quoting} {stops stops' : Char → Bool} {s t : Cursor} {c : Char}

theorem next_eq_some_iff : s.next q stops c = some t ↔
    s.mode.next q c = some t.mode ∧ s.openedBehind stops c = some t.opened := by
  obtain ⟨mode, opened⟩ := t
  simp [next, Option.bind_eq_some_iff]

theorem openedBehind_of_code (h : s.mode = .code ∧ c ≠ '"') :
    s.openedBehind stops c = Bracket.behind stops s.opened c := if_pos h

theorem openedBehind_of_not_code (h : ¬(s.mode = .code ∧ c ≠ '"')) :
    s.openedBehind stops c = some s.opened := if_neg h

theorem next_opening (b : Bracket) (opened : List Bracket) :
    (code opened).next q stops b.opening = some (code (b :: opened)) := by
  cases b <;> rfl

theorem next_closing (b : Bracket) (opened : List Bracket) :
    (code (b :: opened)).next q stops b.closing = some (code opened) := by
  cases b <;> rfl

/-- A character that is neither a quote nor a bracket nor stops the reader. -/
theorem next_ordinary (hquote : c ≠ '"') (hopening : ∀ b : Bracket, b.opening ≠ c)
    (hclosing : ∀ b : Bracket, b.closing ≠ c) (hstops : stops c = false) (opened : List Bracket) :
    (code opened).next q stops c = some (code opened) := by
  rw [next_eq_some_iff, openedBehind_of_code ⟨rfl, hquote⟩]
  refine ⟨Mode.next_code hquote, ?_⟩
  simp [Bracket.behind, Bracket.opened?_eq_none hopening, Bracket.closed?_eq_none hclosing, hstops]

theorem next_within {outer : List Bracket} (hstops : outer = [] → stops' c = true → stops c = true)
    (h : s.next q stops c = some t) :
    (s.within outer).next q stops' c = some (t.within outer) := by
  rw [next_eq_some_iff] at h ⊢
  refine ⟨h.1, ?_⟩
  obtain ⟨-, hopened⟩ := h
  by_cases hcode : s.mode = .code ∧ c ≠ '"'
  · rw [openedBehind_of_code hcode] at hopened
    rw [openedBehind_of_code (s := s.within outer) hcode]
    exact Bracket.behind_append hstops hopened
  · rw [openedBehind_of_not_code hcode] at hopened
    rw [openedBehind_of_not_code (s := s.within outer) hcode, within, Option.some.inj hopened]
    rfl

end Cursor

/-- Stops at no character: only a bracket that does not match is in the way. -/
def freely : Char → Bool := fun _ => false

/-- Where a reader of brackets comes to. -/
def scan (q : Quoting) (stops : Char → Bool) (s : Cursor) (text : List Char) : Option Cursor :=
  reads (Cursor.next q stops) s text

section Scan

variable {q : Quoting} {stops stops' : Char → Bool} {s t : Cursor} {text : List Char}

/-- What can be read can be read inside of more brackets, where nothing else stops the reader. -/
theorem scan_within {outer : List Bracket} (houter : outer ≠ []) (h : scan q stops s text = some t) :
    scan q stops' (s.within outer) text = some (t.within outer) :=
  reads_map (fun _ _ _ => Cursor.next_within fun hnil => absurd hnil houter) h

/-- A reader that fewer characters stop reads further. -/
theorem scan_mono (hstops : ∀ c, stops' c = true → stops c = true) (h : scan q stops s text = some t) :
    scan q stops' s text = some t := by
  have hwithin : ∀ u : Cursor, u.within [] = u := fun u => by simp [Cursor.within]
  have hstep : ∀ u c v, Cursor.next q stops u c = some v →
      Cursor.next q stops' (u.within []) c = some (v.within []) :=
    fun _ c _ => Cursor.next_within fun _ => hstops c
  have hreads := reads_map hstep h
  rwa [hwithin, hwithin] at hreads

theorem scan_freely (h : scan q stops s text = some t) : scan q freely s text = some t :=
  scan_mono (fun _ hstop => nomatch hstop) h

/-- What means itself between two quotes does not lead out of the string. -/
theorem scan_quoted (h : q.Admits text) (opened : List Bracket) :
    scan q stops (.quoted opened) text = some (.quoted opened) := by
  refine reads_of_forall fun c hc => Cursor.next_eq_some_iff.mpr ⟨if_pos (h c hc), ?_⟩
  apply Cursor.openedBehind_of_not_code
  rintro ⟨⟨⟩, -⟩

end Scan

end ScriptTree
