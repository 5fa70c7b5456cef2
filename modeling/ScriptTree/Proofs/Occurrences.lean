/-
  ScriptTree/Proofs/Occurrences.lean
  ==================================
  **Where assignments stand in a tree**, and what that has to do with scopes.  The targets of a tree
  are listed in the order of rendering, each with the bodies around it (`Stmt.occurrences`).  From
  this list alone it can be said which names are known at an occurrence (`Known`) and which
  occurrences get `var` (`Declares`): no scopes are involved.

  The link to the scopes is `Tells`.  The stack has one frame for each body around, and the names
  visible from a frame are those known in its body.  It holds at the start and is kept by an
  assignment, by entering a body that no earlier occurrence stands in, and by leaving a body.
-/
import ScriptTree.Proofs.Draft

namespace ScriptTree

/-! ### Bodies and occurrences -/

/-- A body below the top level: the node it belongs to, and its parameters or its loop variable. -/
structure Body where
  place : Place
  names : List String
  deriving DecidableEq

/-- A target of an assignment, with the bodies around it (innermost first, without the top level) and
    the value assigned. -/
structure Occurrence where
  bodies : List Body
  target : Expr
  value : Expr

def occurrencesIn (p : Place) (f : Field) (ss : List (Place → List Body → List Occurrence))
    (around : List Body) : List Occurrence :=
  (ss.mapIdx fun i s => s (.field f i :: p) around).flatten

/-- The occurrences in a form.  Functions and loops over elements have bodies of their own; so do
    lambdas, but no assignment stands in an expression. -/
def StmtForm.occurrences (form : StmtForm (Place → List Body → List Occurrence) Expr) (p : Place)
    (around : List Body) : List Occurrence :=
  match form with
  | .functionDef _ params body _ => occurrencesIn p .body body (⟨p, params.boundNames⟩ :: around)
  | .assign targets value => targets.map fun target => ⟨around, target, value⟩
  | .forLoop ⟨_, .name id⟩ _ body _ => occurrencesIn p .body body (⟨p, [id]⟩ :: around)
  | .whileLoop _ body _ => occurrencesIn p .body body around
  | .cond _ body orelse => occurrencesIn p .body body around ++ occurrencesIn p .orelse orelse around
  | _ => []

/-- The occurrences in a statement at a place, some bodies being around it. -/
def Stmt.occurrences : Stmt → Place → List Body → List Occurrence :=
  Stmt.fold fun _ form => form.occurrences

def occurrencesOf (stmts : List Stmt) : List Occurrence :=
  occurrencesIn [] .body (stmts.map Stmt.occurrences) []

theorem Stmt.occurrences_mk (l : Loc) (form : StmtForm Stmt Expr) :
    Stmt.occurrences ⟨l, form⟩ = (form.map Stmt.occurrences).occurrences :=
  Stmt.fold_mk _ l form

/-! ### Which occurrences get `var` -/

/-- An occurrence with the texts of its target and its value. -/
structure Emitted where
  occurrence : Occurrence
  text : String
  value : String

/-- Names known in a body: those declared at the start, the parameters and loop variables of this body
    and those around it, and the earlier targets that stand directly in one of them. -/
def Known (declared : List String) (before : List Emitted) (bodies : List Body) (x : String) : Prop :=
  x ∈ declared ∨ (∃ b ∈ bodies, x ∈ b.names) ∨
    ∃ y ∈ before, y.text = x ∧ y.occurrence.bodies <:+ bodies

instance (declared : List String) (before : List Emitted) (bodies : List Body) (x : String) :
    Decidable (Known declared before bodies x) :=
  inferInstanceAs (Decidable (_ ∨ _ ∨ _))

/-- An occurrence gets `var` when its text is that of a name not yet known. -/
def Declares (declared : List String) (before : List Emitted) (x : Emitted) : Prop :=
  '.' ∉ x.text.toList ∧ '[' ∉ x.text.toList ∧ ¬Known declared before x.occurrence.bodies x.text

instance (declared : List String) (before : List Emitted) (x : Emitted) :
    Decidable (Declares declared before x) :=
  inferInstanceAs (Decidable (_ ∧ _ ∧ _))

/-- The texts of targets in order, each with whether it gets `var`. -/
def placement (declared : List String) : List Emitted → List Emitted → List (String × Bool)
  | _, [] => []
  | before, x :: rest =>
    (x.text, decide (Declares declared before x)) :: placement declared (before ++ [x]) rest

theorem placement_append (declared : List String) (before xs ys : List Emitted) :
    placement declared before (xs ++ ys) =
      placement declared before xs ++ placement declared (before ++ xs) ys := by
  induction xs generalizing before with
  | nil => simp [placement]
  | cons x rest ih => simp [placement, ih]

/-- Whether an occurrence gets `var` depends on those before it. -/
theorem placement_eq_mapIdx (declared : List String) (seen : List Emitted) :
    placement declared [] seen =
      seen.mapIdx fun i x => (x.text, decide (Declares declared (seen.take i) x)) := by
  have hgeneral : ∀ before rest : List Emitted, placement declared before rest =
      rest.mapIdx fun i x => (x.text, decide (Declares declared (before ++ rest.take i) x)) := by
    intro before rest
    induction rest generalizing before with
    | nil => rfl
    | cons x rest ih =>
      rw [placement, ih, List.mapIdx_cons, List.take_zero, List.append_nil]
      simp only [List.take_succ_cons, List.append_assoc, List.singleton_append]
      rfl
  exact hgeneral [] seen

theorem isReference_eq_false_iff (t : String) :
    isReference t = false ↔ '.' ∉ t.toList ∧ '[' ∉ t.toList := by
  simp only [isReference, List.any_eq_false, Bool.or_eq_true, decide_eq_true_eq, not_or]
  constructor
  · intro h
    exact ⟨fun hmem => (h _ hmem).1 rfl, fun hmem => (h _ hmem).2 rfl⟩
  · rintro ⟨hdot, hbracket⟩ c hc
    exact ⟨fun heq => hdot (heq ▸ hc), fun heq => hbracket (heq ▸ hc)⟩

/-! ### Scopes that tell what is known -/

/-- The stack has a frame for each body, and what is visible from a frame is known in its body. -/
structure Tells (declared : List String) (around : List Body) (before : List Emitted)
    (s : ScopeStack) : Prop where
  linked : s.Linked
  size : s.frames.size = around.length + 1
  visible : ∀ bodies, bodies <:+ around → ∀ x, isReference x = false →
    (s.VisibleAt bodies.length x ↔ Known declared before bodies x)

variable {declared : List String} {around : List Body} {before : List Emitted} {s : ScopeStack}

theorem tells_withDeclared (declared : List String) :
    Tells declared [] [] (.withDeclared declared) where
  linked := ScopeStack.linked_new.declare declared
  size := by
    rw [ScopeStack.withDeclared, ScopeStack.size_declare]
    rfl
  visible := by
    intro bodies hbodies x _
    obtain rfl : bodies = [] := List.suffix_nil.mp hbodies
    have hframe : (ScopeStack.withDeclared declared).frames[0]? =
        some (Frame.declare ⟨none, []⟩ declared) := rfl
    rw [List.length_nil, ScopeStack.visibleAt_zero hframe, Frame.mem_declare]
    simp [Known]

/-- An assignment gets `var` exactly where an occurrence declares. -/
theorem Tells.gives_eq (h : Tells declared around before s) {x : Emitted}
    (hx : x.occurrence.bodies = around) :
    Act.gives s x.text = decide (Declares declared before x) := by
  rw [Bool.eq_iff_iff, decide_eq_true_eq, Declares, ← and_assoc, ← isReference_eq_false_iff, hx,
    Act.gives]
  have hcontains := h.linked.contains_iff x.text
  rw [h.size, Nat.add_sub_cancel] at hcontains
  by_cases href : isReference x.text = true
  · simp [href]
  · rw [Bool.not_eq_true] at href
    rw [h.visible around (List.suffix_refl _) x.text href] at hcontains
    rw [← hcontains]
    simp [href]

/-! ### What keeps the scopes telling -/

theorem known_append_iff {bodies : List Body} {x : Emitted} {name : String} :
    Known declared (before ++ [x]) bodies name ↔
      Known declared before bodies name ∨ (x.text = name ∧ x.occurrence.bodies <:+ bodies) := by
  simp only [Known, List.mem_append, List.mem_singleton, or_and_right, exists_or, exists_eq_left,
    or_assoc]

theorem known_cons_iff {b : Body} {name : String}
    (hfresh : ∀ y ∈ before, y.occurrence.bodies ≠ b :: around) :
    Known declared before (b :: around) name ↔ Known declared before around name ∨ name ∈ b.names := by
  have hsame : ∀ y ∈ before,
      (y.occurrence.bodies <:+ b :: around ↔ y.occurrence.bodies <:+ around) := by
    intro y hy
    rw [List.suffix_cons_iff]
    simp [hfresh y hy]
  constructor
  · rintro (hstart | ⟨b', hb', hmem⟩ | ⟨y, hy, htext, hsuffix⟩)
    · exact Or.inl (Or.inl hstart)
    · rcases List.mem_cons.mp hb' with rfl | hb'
      · exact Or.inr hmem
      · exact Or.inl (Or.inr (Or.inl ⟨b', hb', hmem⟩))
    · exact Or.inl (Or.inr (Or.inr ⟨y, hy, htext, (hsame y hy).mp hsuffix⟩))
  · rintro ((hstart | ⟨b', hb', hmem⟩ | ⟨y, hy, htext, hsuffix⟩) | hown)
    · exact Or.inl hstart
    · exact Or.inr (Or.inl ⟨b', List.mem_cons_of_mem b hb', hmem⟩)
    · exact Or.inr (Or.inr ⟨y, hy, htext, (hsame y hy).mpr hsuffix⟩)
    · exact Or.inr (Or.inl ⟨b, List.mem_cons_self, hown⟩)

/-- An occurrence makes its text known in its own body and in no body around. -/
theorem Tells.assign (h : Tells declared around before s) {x : Emitted}
    (hx : x.occurrence.bodies = around) :
    Tells declared around (before ++ [x]) (Act.after s (.assign x.text)) := by
  have hgives := h.gives_eq hx
  show Tells declared around (before ++ [x]) (if Act.gives s x.text then _ else s)
  by_cases hdeclares : Declares declared before x
  · rw [hgives, decide_eq_true hdeclares, if_pos rfl]
    refine ⟨h.linked.declare _, ?_, ?_⟩
    · rw [ScopeStack.size_declare, h.size]
    · intro bodies hbodies name hname
      rw [known_append_iff, hx, ← h.visible bodies hbodies name hname]
      by_cases hlast : bodies = around
      · subst hlast
        have hvisible := s.visibleAt_declare [x.text] name
        rw [h.size, Nat.add_sub_cancel] at hvisible
        rw [hvisible, List.mem_singleton]
        simp [eq_comm]
      · have hlt : bodies.length < around.length := by
          rcases Nat.lt_or_eq_of_le hbodies.length_le with hlt | heq
          · exact hlt
          · exact absurd (hbodies.eq_of_length heq) hlast
        have houter : ¬around <:+ bodies := fun hsuffix => by
          have := hsuffix.length_le
          omega
        rw [ScopeStack.visibleAt_declare_of_lt (by rw [h.size]; omega)]
        simp [houter]
  · rw [hgives, decide_eq_false hdeclares, if_neg Bool.false_ne_true]
    refine ⟨h.linked, h.size, ?_⟩
    intro bodies hbodies name hname
    rw [known_append_iff, h.visible bodies hbodies name hname]
    refine ⟨Or.inl, ?_⟩
    rintro (hknown | ⟨htext, hsuffix⟩)
    · exact hknown
    · -- the name is known already, or the occurrence would declare it
      rw [hx] at hsuffix
      obtain rfl : bodies = around := hbodies.eq_of_length_le hsuffix.length_le
      by_contra hunknown
      refine hdeclares ?_
      rw [Declares, ← and_assoc, ← isReference_eq_false_iff, hx, htext]
      exact ⟨hname, hunknown⟩

/-- On entering a body its own names become known.  No occurrence stands in it yet. -/
theorem Tells.enter (h : Tells declared around before s) (b : Body)
    (hfresh : ∀ y ∈ before, y.occurrence.bodies ≠ b :: around) :
    Tells declared (b :: around) before (s.enter.declare b.names) where
  linked := h.linked.enter.declare _
  size := by rw [ScopeStack.size_declare, ScopeStack.size_enter, h.size, List.length_cons]
  visible := by
    intro bodies hbodies name hname
    have hsize : s.enter.frames.size - 1 = around.length + 1 := by
      rw [ScopeStack.size_enter, h.size, Nat.add_sub_cancel]
    rcases List.suffix_cons_iff.mp hbodies with rfl | hsuffix
    · have hvisible := s.enter.visibleAt_declare b.names name
      have htop := s.visibleAt_size name
      rw [h.size, Nat.add_sub_cancel] at htop
      rw [hsize, ScopeStack.visibleAt_enter, htop,
        h.visible around (List.suffix_refl _) name hname] at hvisible
      rw [List.length_cons, hvisible, known_cons_iff hfresh]
    · have hlength := hsuffix.length_le
      rw [ScopeStack.visibleAt_declare_of_lt (by omega), ScopeStack.visibleAt_enter]
      exact h.visible bodies hsuffix name hname

theorem Tells.leave {b : Body} (h : Tells declared (b :: around) before s) :
    Tells declared around before s.exit := by
  have hsize : s.frames.size = around.length + 2 := h.size
  refine ⟨h.linked.exit, ?_, ?_⟩
  · rw [ScopeStack.frames_exit s (by omega), Array.size_pop, hsize]
    rfl
  · intro bodies hbodies name hname
    have hlength := hbodies.length_le
    rw [ScopeStack.visibleAt_exit (by omega)]
    exact h.visible bodies (hbodies.trans (List.suffix_cons b around)) name hname

end ScriptTree
