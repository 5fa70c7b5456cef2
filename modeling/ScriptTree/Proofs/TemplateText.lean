/-
  ScriptTree/Proofs/TemplateText.lean
  ===================================
  **Templates and their written form.**  A list of pieces is *normal* if no literal of it is empty,
  stands next to another one or holds the opening of a placeholder.  Reading a template is the inverse
  of writing a normal one: a text is read as exactly those normal pieces that it is the written form
  of, and a text that is no such form is refused for its first faulty placeholder
  (`Template.parse_inverts_print`).

  Both directions follow from two facts.  Every text is the written form of normal pieces or has a
  first faulty placeholder (`normal_or_fault`), which has nothing to do with the reader.  And behind
  the written form of normal pieces the reader goes on as if it had just begun (`outside_chars`).
-/
import ScriptTree.Proofs.Outcomes
import ScriptTree.Render.Template
import Mathlib.Logic.ExistsUnique

namespace ScriptTree

def Piece.isLit : Piece → Bool
  | .lit _ => true
  | .rendered _ | .raw _ => false

namespace Template

/-! ### Normal templates -/

/-- What opens a placeholder. -/
def opening : List Char := ['$', '\x7b']

/-- What a placeholder ends with, before the brace, if it asks for the bare text. -/
def rawMark : List Char := [':', 'r', 'a', 'w']

structure Normal (t : Template) : Prop where
  nonempty : ∀ text, .lit text ∈ t → text ≠ ""
  unopened : ∀ text, .lit text ∈ t → ¬opening <:+: text.toList
  apart : ∀ front a b back, t ≠ front ++ .lit a :: .lit b :: back

variable {t : Template} {p : Piece}

theorem normal_nil : Normal [] where
  nonempty text h := absurd h List.not_mem_nil
  unopened text h := absurd h List.not_mem_nil
  apart front a b back h := by simp at h

theorem Normal.tail (h : Normal (p :: t)) : Normal t where
  nonempty text hmem := h.nonempty text (List.mem_cons_of_mem p hmem)
  unopened text hmem := h.unopened text (List.mem_cons_of_mem p hmem)
  apart front a b back heq := h.apart (p :: front) a b back (by rw [heq, List.cons_append])

theorem Normal.cons_field (hp : p.isLit = false) (h : Normal t) : Normal (p :: t) := by
  have hlit : ∀ text, .lit text ∈ p :: t → .lit text ∈ t := by
    intro text hmem
    rcases List.mem_cons.mp hmem with rfl | hmem
    · cases hp
    · exact hmem
  constructor
  · exact fun text hmem => h.nonempty text (hlit text hmem)
  · exact fun text hmem => h.unopened text (hlit text hmem)
  · intro front a b back heq
    rcases front with _ | ⟨q, front⟩
    · obtain ⟨rfl, -⟩ := List.cons.inj heq
      cases hp
    · exact h.apart front a b back (List.cons.inj heq).2

theorem Normal.cons_lit {text : String} (hne : text ≠ "") (hfree : ¬opening <:+: text.toList)
    (hnext : ∀ b back, t ≠ .lit b :: back) (h : Normal t) : Normal (.lit text :: t) := by
  constructor
  · intro other hmem
    rcases List.mem_cons.mp hmem with heq | hmem
    · exact (Piece.lit.inj heq) ▸ hne
    · exact h.nonempty other hmem
  · intro other hmem
    rcases List.mem_cons.mp hmem with heq | hmem
    · exact (Piece.lit.inj heq) ▸ hfree
    · exact h.unopened other hmem
  · intro front a b back heq
    rcases front with _ | ⟨q, front⟩
    · exact hnext b back (List.cons.inj heq).2
    · exact h.apart front a b back (List.cons.inj heq).2

/-! ### Written forms -/

/-- The written form, character by character. -/
def chars (t : Template) : List Char := t.flatMap fun p => (printPiece p).toList

theorem toList_print (t : Template) : t.print.toList = t.chars := by
  rw [print, String.toList_join, List.flatMap_map, chars]

theorem chars_cons (p : Piece) (t : Template) :
    chars (p :: t) = (printPiece p).toList ++ t.chars := List.flatMap_cons

theorem chars_append (t u : Template) : chars (t ++ u) = t.chars ++ u.chars := List.flatMap_append

theorem literal_cons (c : Char) (text : List Char) (t : Template) :
    literal (c :: text).reverse t = .lit (String.ofList (c :: text)) :: t := by
  rw [literal, if_neg (by simp), List.reverse_reverse]

theorem chars_literal (text : List Char) (t : Template) :
    chars (literal text.reverse t) = text ++ t.chars := by
  rcases text with _ | ⟨c, text⟩
  · rfl
  · rw [literal_cons, chars_cons, printPiece, String.toList_ofList]

theorem normal_literal {text : List Char} (hfree : ¬opening <:+: text)
    (hnext : ∀ b back, t ≠ .lit b :: back) (h : Normal t) : Normal (literal text.reverse t) := by
  rcases text with _ | ⟨c, text⟩
  · exact h
  · rw [literal_cons]
    refine h.cons_lit ?_ (by rwa [String.toList_ofList]) hnext
    intro hempty
    simpa using congrArg String.toList hempty

/-! ### Placeholders -/

/-- What stands between the braces of a placeholder. -/
def body : Piece → List Char
  | .lit _ => []
  | .rendered field => (Variant.name field).toList
  | .raw field => (Variant.name field).toList ++ rawMark

/-- What stands between the braces, without one mark at the end. -/
def bare (inside : List Char) : List Char :=
  if rawMark.isSuffixOf inside then inside.take (inside.length - rawMark.length) else inside

theorem bare_marked (name : List Char) : bare (name ++ rawMark) = name := by
  have hmarked : rawMark.isSuffixOf (name ++ rawMark) = true := by
    rw [List.isSuffixOf_iff_suffix]
    exact List.suffix_append name rawMark
  simp [bare, hmarked]

theorem bare_unmarked {inside : List Char} (h : ¬rawMark <:+ inside) : bare inside = inside := by
  rw [bare, if_neg (by rwa [List.isSuffixOf_iff_suffix])]

theorem toList_printPiece (hp : p.isLit = false) :
    (printPiece p).toList = opening ++ body p ++ ['\x7d'] := by
  rcases p with text | field | field
  · cases hp
  · simp [printPiece, body, opening]
  · simp [printPiece, body, opening, rawMark]

theorem brace_not_mem_body (p : Piece) : '\x7d' ∉ body p := by
  rcases p with text | field | field
  · exact List.not_mem_nil
  · cases field <;> decide
  · cases field <;> decide

theorem placeholder_body (source : String) (hp : p.isLit = false) :
    placeholder source (body p).reverse = .ok p := by
  rcases p with text | field | field
  · cases hp
  · cases field <;> rfl
  · cases field <;> rfl

/-- A known name makes a placeholder, with a mark or without. -/
theorem exists_body {inside : List Char} {field : Field}
    (h : Variant.name field = String.ofList (bare inside)) :
    ∃ p : Piece, p.isLit = false ∧ body p = inside := by
  by_cases hmarked : rawMark <:+ inside
  · obtain ⟨name, rfl⟩ := hmarked
    rw [bare_marked] at h
    exact ⟨.raw field, rfl, by rw [body, h, String.toList_ofList]⟩
  · rw [bare_unmarked hmarked] at h
    exact ⟨.rendered field, rfl, by rw [body, h, String.toList_ofList]⟩

theorem placeholder_unknown (source : String) {inside : List Char}
    (h : ∀ field : Field, Variant.name field ≠ String.ofList (bare inside)) :
    placeholder source inside.reverse =
      .error (.unknownField (String.ofList (bare inside)) source) := by
  have hnone : Variant.ofName? Field (String.ofList (bare inside)) = none := by
    apply List.find?_eq_none.mpr
    intro field _
    simpa using h field
  by_cases hmarked : rawMark <:+ inside
  · obtain ⟨name, rfl⟩ := hmarked
    rw [bare_marked] at hnone ⊢
    rw [List.reverse_append]
    simp [placeholder, rawMark, hnone]
  · rw [bare_unmarked hmarked] at hnone ⊢
    unfold placeholder
    split
    next name _ heq =>
      split at heq
      · next base hinside =>
        refine absurd ⟨base.reverse, ?_⟩ hmarked
        rw [← List.reverse_reverse inside, hinside]
        simp [rawMark]
      · obtain ⟨rfl, -⟩ := Prod.mk.inj heq
        simp only [List.reverse_reverse, hnone]

/-! ### The reader, stretch by stretch -/

variable {source : String} {text rest : List Char}

/-- A character is literal text unless it begins an opening. -/
theorem outside_step {c : Char} (h : ¬opening <+: c :: rest) :
    outside source text (c :: rest) = outside source (c :: text) rest := by
  apply outside.eq_3
  rintro more rfl rfl
  exact h ⟨more, rfl⟩

theorem outside_unopened {lit : List Char} (hfree : ¬opening <:+: lit) :
    outside source text lit = .ok (literal (lit.reverse ++ text) []) := by
  induction lit generalizing text with
  | nil => rw [outside.eq_1, List.reverse_nil, List.nil_append]
  | cons c lit ih =>
    rw [List.infix_cons_iff, not_or] at hfree
    rw [outside_step hfree.1, ih hfree.2, List.reverse_cons, List.append_assoc]
    rfl

theorem outside_opening {lit : List Char} (hfree : ¬opening <:+: lit) :
    outside source text (lit ++ '$' :: '\x7b' :: rest) = do
      let pieces ← inside source [] rest
      return literal (lit.reverse ++ text) pieces := by
  induction lit generalizing text with
  | nil => exact outside.eq_2 source text rest
  | cons c lit ih =>
    rw [List.infix_cons_iff, not_or] at hfree
    -- the opening that follows begins with a dollar sign, so it cannot end an earlier one
    have hstep : ¬opening <+: c :: (lit ++ '$' :: '\x7b' :: rest) := by
      rcases lit with _ | ⟨d, lit⟩
      · simp [opening]
      · intro hopen
        apply hfree.1
        simpa [opening] using hopen
    rw [List.cons_append, outside_step hstep, ih hfree.2, List.reverse_cons, List.append_assoc]
    rfl

theorem inside_unclosed {name : List Char} (h : '\x7d' ∉ rest) :
    inside source name rest = .error (.unterminated source) := by
  induction rest generalizing name with
  | nil => rw [inside.eq_1]
  | cons c rest ih =>
    rw [List.mem_cons, not_or] at h
    rw [inside.eq_3 _ _ _ _ fun hc => h.1 hc.symm]
    exact ih h.2

theorem inside_closed {name inner : List Char} (h : '\x7d' ∉ inner) :
    inside source name (inner ++ '\x7d' :: rest) = do
      let piece ← placeholder source (inner.reverse ++ name)
      let pieces ← outside source [] rest
      return piece :: pieces := by
  induction inner generalizing name with
  | nil => exact inside.eq_2 source name rest
  | cons c inner ih =>
    rw [List.mem_cons, not_or] at h
    rw [List.cons_append, inside.eq_3 _ _ _ _ fun hc => h.1 hc.symm, ih h.2, List.reverse_cons,
      List.append_assoc]
    rfl

/-! ### Reading on behind pieces -/

theorem outside_placeholder (hp : p.isLit = false) :
    outside source [] ((printPiece p).toList ++ rest) = do
      let pieces ← outside source [] rest
      return p :: pieces := by
  have htext : (printPiece p).toList ++ rest = '$' :: '\x7b' :: (body p ++ '\x7d' :: rest) := by
    rw [toList_printPiece hp]
    simp [opening]
  have hplaceholder := placeholder_body source hp
  rw [htext, outside.eq_2, inside_closed (brace_not_mem_body p), List.append_nil, hplaceholder]
  exact bind_pure _

/-- Literal text is a piece of its own if an opening or nothing follows. -/
theorem outside_lit {lit : String} (hne : lit ≠ "") (hfree : ¬opening <:+: lit.toList)
    (hrest : rest = [] ∨ opening <+: rest) :
    outside source [] (lit.toList ++ rest) = do
      let pieces ← outside source [] rest
      return .lit lit :: pieces := by
  have hpiece : ∀ pieces, literal (lit.toList.reverse ++ []) pieces = .lit lit :: pieces := by
    intro pieces
    obtain ⟨c, text, htext⟩ := List.exists_cons_of_ne_nil (mt String.toList_eq_nil_iff.mp hne)
    rw [List.append_nil, htext, literal_cons, ← htext, String.ofList_toList]
  rcases hrest with rfl | ⟨more, rfl⟩
  · rw [List.append_nil, outside_unopened hfree, hpiece, outside.eq_1]
    rfl
  · show outside source [] (lit.toList ++ '$' :: '\x7b' :: more) =
      outside source [] ('$' :: '\x7b' :: more) >>= fun pieces => pure (.lit lit :: pieces)
    rw [outside_opening hfree, outside.eq_2]
    simp only [hpiece]
    rcases inside source [] more with e | pieces <;> rfl

/-- After a literal, normal pieces go on with an opening. -/
theorem Normal.opens {lit : String} (h : Normal (.lit lit :: t))
    (hrest : rest = [] ∨ opening <+: rest) :
    t.chars ++ rest = [] ∨ opening <+: t.chars ++ rest := by
  rcases t with _ | ⟨p, t⟩
  · exact hrest
  · have hp : p.isLit = false := by
      rcases p with b | field | field
      · exact absurd rfl (h.apart [] lit b t)
      · rfl
      · rfl
    right
    rw [chars_cons, toList_printPiece hp, List.append_assoc, List.append_assoc, List.append_assoc]
    exact List.prefix_append _ _

/-- Behind the written form of normal pieces the reader begins anew. -/
theorem outside_chars (h : Normal t) (hrest : rest = [] ∨ opening <+: rest) :
    outside source [] (t.chars ++ rest) = do
      let pieces ← outside source [] rest
      return t ++ pieces := by
  induction t with
  | nil => exact (bind_pure _).symm
  | cons p t ih =>
    have hread := ih h.tail
    have hpiece : outside source [] ((printPiece p).toList ++ (chars t ++ rest)) = do
        let pieces ← outside source [] (chars t ++ rest)
        return p :: pieces := by
      rcases p with lit | field | field
      · have hmem : Piece.lit lit ∈ Piece.lit lit :: t := List.mem_cons_self
        exact outside_lit (h.nonempty lit hmem) (h.unopened lit hmem) (h.opens hrest)
      · exact outside_placeholder rfl
      · exact outside_placeholder rfl
    rw [chars_cons, List.append_assoc, hpiece, hread]
    rcases outside source [] rest with e | pieces <;> rfl

/-! ### The first faulty placeholder -/

/-- What is wrong with a text, from the left: normal pieces are followed by a placeholder that has no
    end or no known name. -/
inductive FirstFault (source : String) (text : List Char) : TemplateError → Prop
  | unterminated (t : Template) (rest : List Char) :
    Normal t → text = t.print.toList ++ opening ++ rest → '\x7d' ∉ rest →
    FirstFault source text (.unterminated source)
  | unknownField (t : Template) (inner rest : List Char) :
    Normal t → text = t.print.toList ++ opening ++ inner ++ '\x7d' :: rest → '\x7d' ∉ inner →
    (∀ field : Field, Variant.name field ≠ String.ofList (bare inner)) →
    FirstFault source text (.unknownField (String.ofList (bare inner)) source)

theorem outside_of_normal (h : Normal t) : outside source [] t.chars = .ok t := by
  rw [← List.append_nil t.chars, outside_chars h (.inl rfl), outside.eq_1]
  exact congrArg Except.ok (List.append_nil t)

theorem outside_of_fault {e : TemplateError} (h : FirstFault source text e) :
    outside source [] text = .error e := by
  rcases h with ⟨t, rest, ht, rfl, hrest⟩ | ⟨t, inner, rest, ht, rfl, hinner, hunknown⟩
  · have hfails : outside source [] (opening ++ rest) = .error (.unterminated source) := by
      show outside source [] ('$' :: '\x7b' :: rest) = _
      rw [outside.eq_2, inside_unclosed hrest]
      rfl
    rw [toList_print, List.append_assoc, outside_chars ht (.inr (List.prefix_append _ _)), hfails]
    rfl
  · have hfails : outside source [] (opening ++ (inner ++ '\x7d' :: rest)) =
        .error (.unknownField (String.ofList (bare inner)) source) := by
      show outside source [] ('$' :: '\x7b' :: (inner ++ '\x7d' :: rest)) = _
      rw [outside.eq_2, inside_closed hinner, List.append_nil, placeholder_unknown source hunknown]
      rfl
    rw [toList_print, List.append_assoc, List.append_assoc,
      outside_chars ht (.inr (List.prefix_append _ _)), hfails]
    rfl

/-- The leftmost opening in a text. -/
theorem exists_first_opening (h : opening <:+: text) :
    ∃ lit rest, text = lit ++ opening ++ rest ∧ ¬opening <:+: lit := by
  induction text with
  | nil => simp [opening] at h
  | cons c text ih =>
    by_cases hhere : opening <+: c :: text
    · obtain ⟨rest, hrest⟩ := hhere
      exact ⟨[], rest, hrest.symm, by simp [opening]⟩
    · rcases List.infix_cons_iff.mp h with hfirst | hlater
      · exact absurd hfirst hhere
      · obtain ⟨lit, rest, rfl, hfree⟩ := ih hlater
        refine ⟨c :: lit, rest, rfl, ?_⟩
        rw [List.infix_cons_iff, not_or]
        refine ⟨?_, hfree⟩
        intro hopen
        apply hhere
        rw [List.append_assoc, ← List.cons_append]
        exact hopen.trans (List.prefix_append _ _)

theorem FirstFault.after {e : TemplateError} {front : Template}
    (hfront : ∀ t, Normal t → Normal (front ++ t)) (h : FirstFault source text e) :
    FirstFault source (front.chars ++ text) e := by
  rcases h with ⟨t, rest, ht, rfl, hrest⟩ | ⟨t, inner, rest, ht, rfl, hinner, hunknown⟩
  · refine .unterminated (front ++ t) rest (hfront t ht) ?_ hrest
    simp only [toList_print, chars_append, List.append_assoc]
  · refine .unknownField (front ++ t) inner rest (hfront t ht) ?_ hinner hunknown
    simp only [toList_print, chars_append, List.append_assoc]

/-- A placeholder and the literal text in front of it. -/
theorem normal_front {lit : List Char} (hfree : ¬opening <:+: lit) (hp : p.isLit = false)
    (h : Normal t) : Normal (literal lit.reverse [p] ++ t) := by
  have happend : literal lit.reverse [p] ++ t = literal lit.reverse (p :: t) := by
    unfold literal
    split <;> rfl
  rw [happend]
  refine normal_literal hfree ?_ (h.cons_field hp)
  intro b back heq
  obtain ⟨rfl, -⟩ := List.cons.inj heq
  cases hp

theorem chars_front (lit : List Char) (hp : p.isLit = false) :
    (literal lit.reverse [p]).chars = lit ++ opening ++ body p ++ ['\x7d'] := by
  rw [chars_literal, chars_cons, toList_printPiece hp]
  simp [chars]

/-- Every text is the written form of normal pieces or has a first fault.  The induction removes the
    text up to the end of the first placeholder. -/
theorem normal_or_fault (source : String) (text : List Char) :
    (∃ t, Normal t ∧ t.chars = text) ∨ ∃ e, FirstFault source text e := by
  induction hn : text.length using Nat.strongRecOn generalizing text with
  | ind n ih =>
    by_cases hopen : opening <:+: text
    · obtain ⟨lit, rest, rfl, hfree⟩ := exists_first_opening hopen
      have hlit : Normal (literal lit.reverse []) := normal_literal hfree (by simp) normal_nil
      have hchars : (literal lit.reverse []).print.toList = lit := by
        rw [toList_print, chars_literal]
        exact List.append_nil lit
      by_cases hclosed : '\x7d' ∈ rest
      · obtain ⟨inner, rest, rfl, hinner⟩ := List.eq_append_cons_of_mem hclosed
        by_cases hknown : ∃ field : Field, Variant.name field = String.ofList (bare inner)
        · obtain ⟨field, hfield⟩ := hknown
          obtain ⟨p, hp, rfl⟩ := exists_body hfield
          have htext : lit ++ opening ++ (body p ++ '\x7d' :: rest) =
              (literal lit.reverse [p]).chars ++ rest := by
            rw [chars_front lit hp]
            simp
          have hshorter : rest.length < n := by
            rw [← hn, htext, chars_front lit hp]
            simp
            omega
          rw [htext]
          rcases ih rest.length hshorter rest rfl with ⟨t, ht, rfl⟩ | ⟨e, he⟩
          · exact .inl ⟨_, normal_front hfree hp ht, chars_append _ t⟩
          · exact .inr ⟨e, he.after fun t ht => normal_front hfree hp ht⟩
        · refine .inr ⟨_, .unknownField _ inner rest hlit ?_ hinner (not_exists.mp hknown)⟩
          rw [hchars, List.append_assoc _ inner]
      · refine .inr ⟨_, .unterminated _ rest hlit ?_ hclosed⟩
        rw [hchars]
    · refine .inl ⟨_, normal_literal hopen (by simp) normal_nil, ?_⟩
      rw [chars_literal]
      exact List.append_nil text

/-! ### Reading and writing -/

/-- **Reading inverts writing.**  A text is read as those normal pieces whose written form it is, and
    there are no two such lists.  Every other text is refused, for its first faulty placeholder. -/
theorem parse_inverts_print (source : String) :
    (∀ t, parse source = .ok t ↔ Normal t ∧ t.print = source) ∧
    ((∃ t, parse source = .ok t) ↔ ∃! t, Normal t ∧ t.print = source) ∧
    ∀ e, parse source = .error e ↔ FirstFault source source.toList e := by
  have hread : ∀ t, Normal t → t.print = source → parse source = .ok t := by
    rintro t ht rfl
    rw [parse, toList_print]
    exact outside_of_normal ht
  have hrefuse : ∀ e, FirstFault source source.toList e → parse source = .error e :=
    fun e he => outside_of_fault he
  have hcases : (∃ t, Normal t ∧ t.print = source) ∨ ∃ e, FirstFault source source.toList e := by
    rcases normal_or_fault source source.toList with ⟨t, ht, htext⟩ | hfault
    · rw [← toList_print] at htext
      exact .inl ⟨t, ht, String.toList_injective htext⟩
    · exact .inr hfault
  have hok : ∀ t, parse source = .ok t ↔ Normal t ∧ t.print = source := by
    intro t
    constructor
    · intro hparse
      rcases hcases with ⟨u, hu, hprint⟩ | ⟨e, he⟩
      · obtain rfl : u = t := by
          simpa using (hread u hu hprint).symm.trans hparse
        exact ⟨hu, hprint⟩
      · cases (hrefuse e he).symm.trans hparse
    · rintro ⟨ht, hprint⟩
      exact hread t ht hprint
  refine ⟨hok, ?_, ?_⟩
  · constructor
    · rintro ⟨t, hparse⟩
      refine ⟨t, (hok t).mp hparse, ?_⟩
      rintro u ⟨hu, hprint⟩
      simpa using (hread u hu hprint).symm.trans hparse
    · rintro ⟨t, ht, -⟩
      exact ⟨t, (hok t).mpr ht⟩
  · intro e
    constructor
    · intro hparse
      rcases hcases with ⟨u, hu, hprint⟩ | ⟨e', he⟩
      · cases (hread u hu hprint).symm.trans hparse
      · obtain rfl : e' = e := by
          simpa using (hrefuse e' he).symm.trans hparse
        exact he
    · exact hrefuse e

-- only the last dollar sign belongs to the opening, and only one mark is taken off
example : parse "$$\x7bname:raw\x7d" = .ok [.lit "$", .raw .name] := rfl
example : parse "$\x7bname:raw:raw\x7d" =
    .error (.unknownField "name:raw" "$\x7bname:raw:raw\x7d") := rfl

/-! ### The templates of the rules -/

/-- The templates of the rules, each with its written form. -/
def written : List (String × Template) :=
  [("return $\x7bvalue\x7d", ret),
   ("$\x7btarget\x7d $\x7bop\x7d= $\x7bvalue\x7d", augAssign),
   ("$\x7btarget\x7d = Math.floor($\x7btarget\x7d / $\x7bvalue\x7d)", augAssignFloorDiv),
   ("while ($\x7btest\x7d) \x7b\n$\x7bbody\x7d\n\x7d", whileLoop),
   ("if ($\x7btest\x7d) \x7b\n$\x7bbody\x7d\n\x7d else \x7b\n$\x7borelse\x7d\n\x7d", cond),
   ("throw new Error($\x7bexc\x7d)", raise),
   ("$\x7bvalue\x7d", expr),
   ("", pass),
   ("break", breakLoop),
   ("continue", continueLoop),
   ("($\x7bleft\x7d $\x7bop\x7d $\x7bright\x7d)", binOp),
   ("(Math.floor($\x7bleft\x7d / $\x7bright\x7d))", binOpFloorDiv),
   ("($\x7bop\x7d$\x7boperand\x7d)", unaryOp),
   ("(($\x7btest\x7d) ? ($\x7bbody\x7d) : ($\x7borelse\x7d))", ifExp),
   ("$\x7bvalue\x7d.$\x7battr:raw\x7d", member),
   ("$\x7bvalue\x7d[$\x7bslice\x7d]", subscript),
   ("$\x7bid:raw\x7d", name),
   ("...$\x7bvalue\x7d", starred),
   ("[$\x7belts\x7d]", list)]

/-- The templates of the rules are what their written forms are read as. -/
theorem parse_of_mem_written {source : String} {t : Template} (h : (source, t) ∈ written) :
    parse source = .ok t := by
  have hall : ∀ rule ∈ written, (parse rule.1).toOption = some rule.2 := by decide +kernel
  exact toOption_eq_some_iff.mp (hall (source, t) h)

end Template

end ScriptTree
