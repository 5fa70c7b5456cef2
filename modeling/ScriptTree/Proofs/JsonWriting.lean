/-
  ScriptTree/Proofs/JsonWriting.lean
  ==================================
  **Ways to write JSON values.**  A text may have blanks behind its commas and colons.  A way to write
  values is known by the blanks that it puts there and by its texts (`Writing`): a scalar has to be
  read back from its own, and lists and objects are written item by item.  Every value is then read
  back from its text (`Writing.readValue_write`), whatever stands behind it, as long as that does not
  continue a number.

  The loops over items and members are opened once per item: `readItems_following` and
  `readMembers_following` go through the list from its second item on, where every item has a comma
  before it.
-/
import ScriptTree.Proofs.JsonNumbers

namespace ScriptTree.Json

/-! ### Strings -/

theorem hexDigit?_hexChar : ∀ n < 16, hexDigit? (hexChar n) = some n := by decide

/-- A control character is read back from its code. -/
theorem readChars_code (acc : List Char) {c : Char} (hc : c.toNat < 0x20) (rest : List Char) :
    readChars acc ('\\' :: 'u' :: '0' :: '0' :: hexChar (c.toNat / 16) :: hexChar (c.toNat % 16) :: rest)
      = readChars (c :: acc) rest := by
  have hzero : hexDigit? '0' = some 0 := rfl
  have hhigh := hexDigit?_hexChar (c.toNat / 16) (by omega)
  have hlow := hexDigit?_hexChar (c.toNat % 16) (by omega)
  have hvalue : hexValue? '0' '0' (hexChar (c.toNat / 16)) (hexChar (c.toNat % 16)) =
      some c.toNat := by
    simp only [hexValue?, hzero, hhigh, hlow, Option.bind_eq_bind, Option.bind_some, Option.pure_def]
    congr 1
    omega
  have hunpaired : isTrailing c.toNat = false ∧ isLeading c.toNat = false := by
    simp only [isTrailing, isLeading, Bool.and_eq_false_iff, decide_eq_false_iff_not]
    omega
  rw [readChars, hvalue]
  simp only [hunpaired.1, hunpaired.2, Char.ofNat_toNat]
  rfl

theorem readChars_escapeChar (acc : List Char) (c : Char) (rest : List Char) :
    readChars acc (escapeChar c ++ rest) = readChars (c :: acc) rest := by
  by_cases hletter : c ∈ ['"', '\\', '\x08', '\x0c', '\n', '\x0d', '\t']
  · simp only [List.mem_cons, List.not_mem_nil, or_false] at hletter
    rcases hletter with rfl | rfl | rfl | rfl | rfl | rfl | rfl <;> rfl
  · simp only [List.mem_cons, List.not_mem_nil, or_false, not_or] at hletter
    obtain ⟨hquote, hslash, hb, hf, hn, hr, ht⟩ := hletter
    by_cases hcontrol : c.toNat < 0x20
    · simp only [escapeChar, hquote, hslash, hb, hf, hn, hr, ht, hcontrol, if_true, if_false]
      exact readChars_code acc hcontrol rest
    · simp only [escapeChar, hquote, hslash, hb, hf, hn, hr, ht, hcontrol, if_false]
      rw [List.singleton_append, readChars]
      · rw [if_neg hcontrol]
      · simpa using hquote
      · simpa using hslash

theorem readChars_flatMap (acc cs rest : List Char) :
    readChars acc (cs.flatMap escapeChar ++ '"' :: rest) =
      .ok (String.ofList (acc.reverse ++ cs), rest) := by
  induction cs generalizing acc with
  | nil => simp [readChars]
  | cons c cs ih =>
    rw [List.flatMap_cons, List.append_assoc, readChars_escapeChar, ih]
    simp

/-- A string is read back behind its opening quote. -/
theorem readString_escaped (s : String) (rest : List Char) :
    readString (s.toList.flatMap escapeChar ++ '"' :: rest) = .ok (s, rest) := by
  have hread := readChars_flatMap [] s.toList rest
  simpa [readString] using hread

theorem stringChars_append (s : String) (rest : List Char) :
    stringChars s ++ rest = '"' :: (s.toList.flatMap escapeChar ++ '"' :: rest) := by
  simp [stringChars]

/-! ### Scalars -/

/-- How the text of a value starts. -/
def Starts (cs : List Char) : Prop :=
  ∃ c rest, cs = c :: rest ∧ isBlank c = false ∧ c ≠ ']'

theorem skipBlanks_cons {c : Char} (hc : isBlank c = false) (cs : List Char) :
    skipBlanks (c :: cs) = c :: cs :=
  List.dropWhile_cons_of_neg (by simp [hc])

/-- What is read as a scalar is neither blank nor a bracket. -/
theorem start_of_readScalar {c : Char} {cs : List Char} {r : Json × List Char}
    (h : readScalar (c :: cs) = .ok r) :
    isBlank c = false ∧ c ≠ ']' ∧ c ≠ '[' ∧ c ≠ '\x7b' := by
  have hblank : isBlank c = false := by
    by_contra hblank
    simp only [isBlank, Bool.not_eq_false, Bool.or_eq_true, decide_eq_true_eq] at hblank
    rcases hblank with ((rfl | rfl) | rfl) | rfl <;> cases h
  refine ⟨hblank, ?_, ?_, ?_⟩
  all_goals
    rintro rfl
    cases h

theorem readValue_scalar {fuel budget : Nat} {cs : List Char} {r : Json × List Char}
    (h : readScalar cs = .ok r) : readValue fuel budget cs = .ok r := by
  cases cs with
  | nil => cases h
  | cons c cs =>
    obtain ⟨hblank, -, hbracket, hbrace⟩ := start_of_readScalar h
    rw [readValue.eq_def]
    dsimp only
    rw [skipBlanks_cons hblank]
    split
    · simp_all
    · simp_all
    · exact h

/-! ### Texts in a row -/

/-- Texts behind a first one, each with a comma and blanks before it. -/
def following (pad : List Char) (texts : List (List Char)) : List Char :=
  texts.flatMap fun t => ',' :: (pad ++ t)

/-- Texts with a comma and blanks between them. -/
def joined (pad : List Char) (texts : List (List Char)) : List Char :=
  (',' :: pad).intercalate texts

theorem joined_cons (pad text : List Char) (texts : List (List Char)) :
    joined pad (text :: texts) = text ++ following pad texts := by
  induction texts generalizing text with
  | nil => simp [joined, following]
  | cons next texts ih =>
    have hnext := ih next
    unfold joined at hnext ⊢
    rw [List.intercalate_cons_cons, hnext]
    simp [following]

theorem endsNumber_following (pad : List Char) (texts : List (List Char)) {rest : List Char}
    (h : EndsNumber rest) : EndsNumber (following pad texts ++ rest) := by
  rcases texts with _ | ⟨text, texts⟩
  · exact h
  · exact endsNumber_comma _

/-- Texts in a row are longer than each of them, and their length is at least their number. -/
theorem length_joined (pad : List Char) {texts : List (List Char)} (h : ∀ t ∈ texts, t ≠ []) :
    texts.length ≤ (joined pad texts).length ∧
      ∀ t ∈ texts, t.length ≤ (joined pad texts).length := by
  have hfollowing : ∀ texts : List (List Char), texts.length ≤ (following pad texts).length ∧
      ∀ t ∈ texts, t.length ≤ (following pad texts).length := by
    intro texts
    induction texts with
    | nil => simp
    | cons text texts ih =>
      have hlength : (following pad (text :: texts)).length =
          text.length + pad.length + 1 + (following pad texts).length := by
        simp [following]
        omega
      rw [hlength, List.length_cons, List.forall_mem_cons]
      exact ⟨by omega, by omega, fun t ht => Nat.le_add_left_of_le (ih.2 t ht)⟩
  rcases texts with _ | ⟨text, texts⟩
  · simp
  · have hpos : 0 < text.length := List.length_pos_iff.mpr (h text List.mem_cons_self)
    have hcount := (hfollowing texts).1
    rw [joined_cons, List.length_append, List.length_cons, List.forall_mem_cons]
    exact ⟨by omega, by omega, fun t ht => Nat.le_add_left_of_le ((hfollowing texts).2 t ht)⟩

/-! ### Lists -/

/-- Nothing but blanks. -/
def Blanks (pad : List Char) : Prop := ∀ c ∈ pad, isBlank c = true

theorem skipBlanks_append {pad : List Char} (hpad : Blanks pad) (cs : List Char) :
    skipBlanks (pad ++ cs) = skipBlanks cs :=
  List.dropWhile_append_of_pos hpad

theorem nextItem_first {cs : List Char} (hcs : Starts cs) (rest : List Char) :
    nextItem true (cs ++ rest) = .ok (true, cs ++ rest) := by
  obtain ⟨c, cs, rfl, hblank, hclose⟩ := hcs
  rw [nextItem, List.cons_append, skipBlanks_cons hblank]
  split <;> simp_all

theorem nextItem_later {pad cs : List Char} (hpad : Blanks pad) (hcs : Starts cs)
    (rest : List Char) : nextItem false (',' :: (pad ++ (cs ++ rest))) = .ok (true, cs ++ rest) := by
  obtain ⟨c, cs, rfl, hblank, hclose⟩ := hcs
  rw [nextItem, List.cons_append, skipBlanks_cons (by decide)]
  change (if false then _ else if ',' = ',' then _ else _) = _
  rw [if_neg (by decide), if_pos rfl, skipBlanks_append hpad, skipBlanks_cons hblank]
  split <;> simp_all

/-- One item of a list. -/
theorem readItems_item {item : List Char → Except (Stop SyntaxFault) (Json × List Char)} {n : Nat}
    {first : Bool} {acc : List Json} {cs text rest : List Char} {j : Json}
    (hnext : nextItem first cs = .ok (true, text)) (hitem : item text = .ok (j, rest)) :
    readItems id item (n + 1) first acc cs = readItems id item n false (j :: acc) rest := by
  rw [readItems, hnext]
  change (item text >>= _) = _
  rw [hitem]
  rfl

theorem readItems_end (item : List Char → Except (Stop SyntaxFault) (Json × List Char)) (n : Nat)
    (first : Bool) (acc : List Json) (rest : List Char) :
    readItems id item (n + 1) first acc (']' :: rest) = .ok (acc.reverse, rest) := rfl

section Items

variable {item : List Char → Except (Stop SyntaxFault) (Json × List Char)} {pad : List Char}
  {write : Json → List Char}

/-- The items behind the first one. -/
theorem readItems_following (hpad : Blanks pad) {items : List Json} {n : Nat}
    (hn : items.length < n)
    (hitem : ∀ j ∈ items, Starts (write j) ∧
      ∀ rest, EndsNumber rest → item (write j ++ rest) = .ok (j, rest))
    (acc : List Json) (rest : List Char) :
    readItems id item n false acc (following pad (items.map write) ++ ']' :: rest) =
      .ok (acc.reverse ++ items, rest) := by
  induction items generalizing n acc with
  | nil =>
    cases n with
    | zero => cases hn
    | succ n => rw [List.append_nil]; exact readItems_end item n false acc rest
  | cons j items ih =>
    cases n with
    | zero => cases hn
    | succ n =>
      obtain ⟨hstart, hread⟩ := hitem j List.mem_cons_self
      have hends := endsNumber_following pad (items.map write) (endsNumber_bracket rest)
      have hnext := nextItem_later hpad hstart (following pad (items.map write) ++ ']' :: rest)
      have hitems := ih (Nat.lt_of_succ_lt_succ hn)
        (fun k hk => hitem k (List.mem_cons_of_mem j hk)) (j :: acc)
      rw [List.map_cons, following, List.flatMap_cons, ← following, List.cons_append,
        List.cons_append, List.append_assoc, List.append_assoc, readItems_item hnext (hread _ hends),
        hitems]
      simp

/-- A whole list behind its opening bracket. -/
theorem readItems_joined (hpad : Blanks pad) {items : List Json} {n : Nat} (hn : items.length < n)
    (hitem : ∀ j ∈ items, Starts (write j) ∧
      ∀ rest, EndsNumber rest → item (write j ++ rest) = .ok (j, rest)) (rest : List Char) :
    readItems id item n true [] (joined pad (items.map write) ++ ']' :: rest) =
      .ok (items, rest) := by
  cases n with
  | zero => cases hn
  | succ n =>
    rcases items with _ | ⟨j, items⟩
    · exact readItems_end item n true [] rest
    · obtain ⟨hstart, hread⟩ := hitem j List.mem_cons_self
      have hends := endsNumber_following pad (items.map write) (endsNumber_bracket rest)
      have hnext := nextItem_first hstart (following pad (items.map write) ++ ']' :: rest)
      rw [List.map_cons, joined_cons, List.append_assoc, readItems_item hnext (hread _ hends),
        readItems_following hpad (Nat.lt_of_succ_lt_succ hn) fun k hk =>
          hitem k (List.mem_cons_of_mem j hk)]
      rfl

end Items

/-! ### Objects -/

/-- The text of a member. -/
def memberText (pad : List Char) (write : Json → List Char) (m : String × Json) : List Char :=
  stringChars m.1 ++ ':' :: (pad ++ write m.2)

theorem memberText_append (pad : List Char) (write : Json → List Char) (m : String × Json)
    (rest : List Char) :
    memberText pad write m ++ rest = stringChars m.1 ++ ':' :: (pad ++ (write m.2 ++ rest)) := by
  simp [memberText]

theorem nextMember_later {pad : List Char} (hpad : Blanks pad) (rest : List Char) :
    nextMember false (',' :: (pad ++ '"' :: rest)) = .ok (true, rest) := by
  have hquote : skipBlanks (pad ++ '"' :: rest) = '"' :: rest :=
    (skipBlanks_append hpad _).trans (skipBlanks_cons (by decide) rest)
  have hcomma : isBlank ',' = false := by decide
  simp [nextMember, skipBlanks_cons hcomma, hquote]

section Members

variable {ε σ : Type} {fault : SyntaxFault → ε}
  {member : σ → String → List Char → Except (Stop ε) (σ × List Char)}

theorem readMembers_end (n : Nat) (first : Bool) (acc : σ) (rest : List Char) :
    readMembers fault member (n + 1) first acc ('\x7d' :: rest) = .ok (acc, rest) := rfl

/-- The first member of an object. -/
theorem readMembers_first {n : Nat} {acc next : σ} {key : String} {text rest : List Char}
    (hmember : member acc key text = .ok (next, rest)) :
    readMembers fault member (n + 1) true acc (stringChars key ++ text) =
      readMembers fault member n false next rest := by
  rw [readMembers, stringChars_append]
  change ((readString _).mapError _ >>= _) = _
  rw [readString_escaped]
  change (member acc key text >>= _) = _
  rw [hmember]
  rfl

/-- A later member of an object, with the comma and the blanks before it. -/
theorem readMembers_later {pad : List Char} (hpad : Blanks pad) {n : Nat} {acc next : σ}
    {key : String} {text rest : List Char} (hmember : member acc key text = .ok (next, rest)) :
    readMembers fault member (n + 1) false acc (',' :: (pad ++ (stringChars key ++ text))) =
      readMembers fault member n false next rest := by
  rw [readMembers, stringChars_append, nextMember_later hpad]
  change ((readString _).mapError _ >>= _) = _
  rw [readString_escaped]
  change (member acc key text >>= _) = _
  rw [hmember]
  rfl

/-- The members behind the first one. -/
theorem readMembers_following {pad : List Char} (hpad : Blanks pad) {write : Json → List Char}
    {step : σ → String × Json → σ} {members : List (String × Json)} {n : Nat}
    (hn : members.length < n)
    (hmember : ∀ m ∈ members, ∀ acc rest, EndsNumber rest →
      member acc m.1 (':' :: (pad ++ (write m.2 ++ rest))) = .ok (step acc m, rest))
    (acc : σ) (rest : List Char) :
    readMembers fault member n false acc
        (following pad (members.map (memberText pad write)) ++ '\x7d' :: rest) =
      .ok (members.foldl step acc, rest) := by
  induction members generalizing n acc with
  | nil =>
    cases n with
    | zero => cases hn
    | succ n => exact readMembers_end n false acc rest
  | cons m members ih =>
    cases n with
    | zero => cases hn
    | succ n =>
      have hends := endsNumber_following pad (members.map (memberText pad write))
        (endsNumber_brace rest)
      have hread := hmember m List.mem_cons_self acc _ hends
      have hmembers := ih (Nat.lt_of_succ_lt_succ hn)
        (fun k hk => hmember k (List.mem_cons_of_mem m hk)) (step acc m)
      rw [List.map_cons, following, List.flatMap_cons, ← following, List.cons_append,
        List.cons_append, List.append_assoc, List.append_assoc, memberText_append,
        readMembers_later hpad hread, hmembers]
      rfl

end Members

section Values

variable {pad : List Char} {write : Json → List Char}
  {value : List Char → Except (Stop SyntaxFault) (Json × List Char)}

/-- One member of an object that is read as a value. -/
theorem readMember_value {j : Json} {text rest : List Char} (hread : value text = .ok (j, rest))
    (acc : List (String × Json)) (key : String) :
    readMember value acc key (':' :: text) = .ok ((key, j) :: acc, rest) := by
  rw [readMember]
  change (value text >>= _) = _
  rw [hread]
  rfl

/-- A whole object behind its opening brace. -/
theorem readMembers_joined (hpad : Blanks pad) {members : List (String × Json)} {n : Nat}
    (hn : members.length < n)
    (hvalue : ∀ m ∈ members, ∀ rest, EndsNumber rest →
      value (pad ++ (write m.2 ++ rest)) = .ok (m.2, rest))
    (rest : List Char) :
    readMembers id (readMember value) n true []
        (joined pad (members.map (memberText pad write)) ++ '\x7d' :: rest) =
      .ok (members.reverse, rest) := by
  have hmember : ∀ m ∈ members, ∀ acc rest, EndsNumber rest →
      readMember value acc m.1 (':' :: (pad ++ (write m.2 ++ rest))) = .ok (m :: acc, rest) :=
    fun m hm acc rest hrest => readMember_value (hvalue m hm rest hrest) acc m.1
  cases n with
  | zero => cases hn
  | succ n =>
    rcases members with _ | ⟨m, members⟩
    · exact readMembers_end n true [] rest
    · have hends := endsNumber_following pad (members.map (memberText pad write))
        (endsNumber_brace rest)
      have hfirst := hmember m List.mem_cons_self [] _ hends
      rw [List.map_cons, joined_cons, List.append_assoc, memberText_append,
        readMembers_first hfirst, readMembers_following hpad (Nat.lt_of_succ_lt_succ hn)
          fun k hk => hmember k (List.mem_cons_of_mem _ hk)]
      simp [List.foldl_flip_cons_eq_append]

end Values

/-! ### Values -/

theorem depthItems_le_iff {items : List Json} {n : Nat} :
    depthItems items ≤ n ↔ ∀ j ∈ items, j.depth ≤ n := by
  induction items with
  | nil => simp [depthItems]
  | cons j items ih => rw [depthItems, Nat.max_le, ih, List.forall_mem_cons]

theorem depthMembers_le_iff {members : List (String × Json)} {n : Nat} :
    depthMembers members ≤ n ↔ ∀ m ∈ members, m.2.depth ≤ n := by
  induction members with
  | nil => simp [depthMembers]
  | cons m members ih => rw [depthMembers, Nat.max_le, ih, List.forall_mem_cons]

/-- Blanks in front of a value are passed over. -/
theorem readValue_append {pad : List Char} (hpad : Blanks pad) (fuel budget : Nat)
    (cs : List Char) : readValue fuel budget (pad ++ cs) = readValue fuel budget cs := by
  rw [readValue.eq_def, readValue.eq_def fuel budget cs]
  dsimp only
  rw [skipBlanks_append hpad]

/-- A way to write some values: with blanks behind commas and colons, and with scalars that are read
    back. -/
structure Writing (pad : List Char) (write : Json → List Char) (Fit : Json → Prop) : Prop where
  blanks : Blanks pad
  scalar : ∀ {j : Json} {rest : List Char}, Fit j → j.depth = 0 → EndsNumber rest →
    readScalar (write j ++ rest) = .ok (j, rest)
  items : ∀ {items : List Json}, Fit (.arr items) → ∀ j ∈ items, Fit j
  members : ∀ {members : List (String × Json)}, Fit (.obj members) → ∀ m ∈ members, Fit m.2
  write_arr : ∀ {items : List Json}, Fit (.arr items) →
    write (.arr items) = '[' :: joined pad (items.map write) ++ [']']
  write_obj : ∀ {members : List (String × Json)}, Fit (.obj members) →
    write (.obj members) = '\x7b' :: joined pad (members.map (memberText pad write)) ++ ['\x7d']

namespace Writing

variable {pad : List Char} {write : Json → List Char} {Fit : Json → Prop}

theorem starts (h : Writing pad write Fit) {j : Json} (hj : Fit j) : Starts (write j) := by
  by_cases hdepth : j.depth = 0
  · have hread := h.scalar hj hdepth endsNumber_nil
    rw [List.append_nil] at hread
    rcases htext : write j with _ | ⟨c, cs⟩
    · rw [htext] at hread
      cases hread
    · rw [htext] at hread
      obtain ⟨hblank, hclose, -⟩ := start_of_readScalar hread
      exact ⟨c, cs, rfl, hblank, hclose⟩
  · cases j with
    | arr items => exact ⟨'[', _, h.write_arr hj, by decide, by decide⟩
    | obj members => exact ⟨'\x7b', _, h.write_obj hj, by decide, by decide⟩
    | _ => exact absurd rfl hdepth

theorem ne_nil (h : Writing pad write Fit) {j : Json} (hj : Fit j) : write j ≠ [] := by
  obtain ⟨c, cs, htext, -⟩ := h.starts hj
  rw [htext]
  exact List.cons_ne_nil c cs

theorem readValue_arr (h : Writing pad write Fit) {items : List Json} (hitems : Fit (.arr items))
    {fuel budget : Nat} (hfuel : (write (.arr items)).length ≤ fuel)
    (hread : ∀ j ∈ items, (write j).length ≤ fuel → ∀ rest, EndsNumber rest →
      readValue fuel budget (write j ++ rest) = .ok (j, rest)) (rest : List Char) :
    readValue fuel (budget + 1) (write (.arr items) ++ rest) = .ok (.arr items, rest) := by
  have hne : ∀ t ∈ items.map write, t ≠ [] :=
    List.forall_mem_map.mpr fun j hj => h.ne_nil (h.items hitems j hj)
  obtain ⟨hcount, hlength⟩ := length_joined pad hne
  rw [List.length_map] at hcount
  rw [List.forall_mem_map] at hlength
  rw [h.write_arr hitems] at hfuel ⊢
  simp only [List.length_append, List.length_cons] at hfuel
  have hitem : ∀ j ∈ items, Starts (write j) ∧ ∀ rest, EndsNumber rest →
      readValue fuel budget (write j ++ rest) = .ok (j, rest) := by
    intro j hj
    have hfits := hlength j hj
    exact ⟨h.starts (h.items hitems j hj), hread j hj (by omega)⟩
  have hloop := readItems_joined h.blanks (Nat.lt_of_lt_of_le (by omega) hfuel) hitem rest
  rw [List.append_assoc, List.cons_append, readValue.eq_def]
  change (readItems _ _ _ _ _ _ >>= _) = _
  rw [List.singleton_append, hloop]
  rfl

theorem readValue_obj (h : Writing pad write Fit) {members : List (String × Json)}
    (hmembers : Fit (.obj members)) {fuel budget : Nat} (hfuel : (write (.obj members)).length ≤ fuel)
    (hread : ∀ m ∈ members, (write m.2).length ≤ fuel → ∀ rest, EndsNumber rest →
      readValue fuel budget (write m.2 ++ rest) = .ok (m.2, rest)) (rest : List Char) :
    readValue fuel (budget + 1) (write (.obj members) ++ rest) = .ok (.obj members, rest) := by
  have hne : ∀ t ∈ members.map (memberText pad write), t ≠ [] :=
    List.forall_mem_map.mpr fun m _ => List.cons_ne_nil _ _
  obtain ⟨hcount, hlength⟩ := length_joined pad hne
  rw [List.length_map] at hcount
  rw [List.forall_mem_map] at hlength
  rw [h.write_obj hmembers] at hfuel ⊢
  simp only [List.length_append, List.length_cons] at hfuel
  have hvalue : ∀ m ∈ members, ∀ rest, EndsNumber rest →
      readValue fuel budget (pad ++ (write m.2 ++ rest)) = .ok (m.2, rest) := by
    intro m hm
    have hfits := hlength m hm
    have hshorter : (write m.2).length ≤ (memberText pad write m).length := by
      simp [memberText]
      omega
    intro rest hrest
    rw [readValue_append h.blanks]
    exact hread m hm (by omega) rest hrest
  have hloop := readMembers_joined h.blanks (Nat.lt_of_lt_of_le (by omega) hfuel) hvalue rest
  rw [List.append_assoc, List.cons_append, readValue.eq_def]
  change (readMembers _ _ _ _ _ _ >>= _) = _
  rw [List.singleton_append, hloop]
  change Except.ok (obj members.reverse.reverse, rest) = _
  rw [List.reverse_reverse]

/-- **A value is read back from its text.**  The induction is on the brackets that may be opened. -/
theorem readValue_write (h : Writing pad write Fit) {j : Json} (hj : Fit j) {fuel budget : Nat}
    (hdepth : j.depth ≤ budget) (hfuel : (write j).length ≤ fuel) {rest : List Char}
    (hrest : EndsNumber rest) : readValue fuel budget (write j ++ rest) = .ok (j, rest) := by
  induction budget generalizing j rest with
  | zero => exact readValue_scalar (h.scalar hj (Nat.le_zero.mp hdepth) hrest)
  | succ budget ih =>
    cases j with
    | arr items =>
      have hdepths := depthItems_le_iff.mp (Nat.le_of_succ_le_succ hdepth)
      refine h.readValue_arr hj hfuel ?_ rest
      intro k hk hfits rest hrest
      exact ih (h.items hj k hk) (hdepths k hk) hfits hrest
    | obj members =>
      have hdepths := depthMembers_le_iff.mp (Nat.le_of_succ_le_succ hdepth)
      refine h.readValue_obj hj hfuel ?_ rest
      intro m hm hfits rest hrest
      exact ih (h.members hj m hm) (hdepths m hm) hfits hrest
    | _ => exact readValue_scalar (h.scalar hj rfl hrest)

end Writing

end ScriptTree.Json
