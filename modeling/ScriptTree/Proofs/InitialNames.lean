/-
  ScriptTree/Proofs/InitialNames.lean
  ===================================
  **Names declared beforehand take `var` away and change nothing else.**  A body is rendered twice,
  once with some names declared at the start and once with more.  Both runs perform the acts of one
  draft.  `Extends` relates the two stacks of scopes at every point of the way: they differ in the
  additional names only, and the second stack has all of them at its top level.  One act keeps the
  relation (`Extends.after`), hence so does a list of acts, and the events differ by `masked`.
-/
import ScriptTree.Proofs.Draft

namespace ScriptTree

/-- An event in whose place no name of `names` is declared. -/
def Event.masked (names : List String) : Event → Event
  | .assignment name declared => .assignment name (declared && decide (name ∉ names))
  | e => e

/-! ### Two stacks that differ by some names -/

/-- The stacks agree outside of some names, which are all declared at the second one's top level. -/
structure Extends (names : List String) (s t : ScopeStack) : Prop where
  size : s.frames.size = t.frames.size
  left : s.Linked
  right : t.Linked
  agree : ∀ (i : Nat) (f g : Frame), s.frames[i]? = some f → t.frames[i]? = some g →
    ∀ x, x ∉ names → (x ∈ f.names ↔ x ∈ g.names)
  top : ∀ g : Frame, t.frames[0]? = some g → ∀ x ∈ names, x ∈ g.names

variable {names : List String} {s t : ScopeStack}

/-- A frame of one stack has a counterpart in the other. -/
theorem Extends.frame_iff (h : Extends names s t) (i : Nat) :
    (∃ f, s.frames[i]? = some f) ↔ ∃ g, t.frames[i]? = some g := by
  simp only [Array.getElem?_eq_some_iff, h.size]
  constructor
  · rintro ⟨f, hi, -⟩
    exact ⟨_, hi, rfl⟩
  · rintro ⟨g, hi, -⟩
    exact ⟨_, h.size ▸ hi, rfl⟩

theorem Extends.contains_iff (h : Extends names s t) (x : String) :
    t.contains x = true ↔ s.contains x = true ∨ x ∈ names := by
  rw [h.left.contains_iff, h.right.contains_iff, ← h.size]
  have hpos := t.nonempty
  by_cases hx : x ∈ names
  · refine ⟨fun _ => Or.inr hx, fun _ => ?_⟩
    have hframe : t.frames[0]? = some t.frames[0] := Array.getElem?_eq_getElem hpos
    exact ⟨0, Nat.zero_le _, _, hframe, h.top _ hframe x hx⟩
  · constructor
    · rintro ⟨i, hi, g, hg, hmem⟩
      obtain ⟨f, hf⟩ := (h.frame_iff i).mpr ⟨g, hg⟩
      exact Or.inl ⟨i, hi, f, hf, (h.agree i f g hf hg x hx).mpr hmem⟩
    · rintro (⟨i, hi, f, hf, hmem⟩ | habsurd)
      · obtain ⟨g, hg⟩ := (h.frame_iff i).mp ⟨f, hf⟩
        exact ⟨i, hi, g, hg, (h.agree i f g hf hg x hx).mp hmem⟩
      · exact absurd habsurd hx

/-- The second run gives `var` where the first one does, except to the additional names. -/
theorem Extends.gives_eq (h : Extends names s t) (x : String) :
    Act.gives t x = (Act.gives s x && decide (x ∉ names)) := by
  have hiff := h.contains_iff x
  rw [Act.gives, Act.gives]
  by_cases hx : x ∈ names
  · have hcontains : t.contains x = true := hiff.mpr (Or.inr hx)
    simp [hcontains, hx]
  · have hsame : t.contains x = s.contains x := by
      rw [Bool.eq_iff_iff, hiff]
      simp [hx]
    simp [hsame, hx]

theorem Extends.enter (h : Extends names s t) : Extends names s.enter t.enter where
  size := by rw [s.size_enter, t.size_enter, h.size]
  left := h.left.enter
  right := h.right.enter
  agree := by
    intro i f g hf hg x hx
    rw [ScopeStack.getElem?_enter] at hf hg
    rw [h.size] at hf
    split at hf
    · rename_i hi
      rw [if_pos hi] at hg
      cases hf
      cases hg
      rfl
    · rename_i hi
      rw [if_neg hi] at hg
      exact h.agree i f g hf hg x hx
  top := by
    intro g hg
    have hpos := t.nonempty
    rw [ScopeStack.getElem?_enter, if_neg (by omega)] at hg
    exact h.top g hg

/-- The first run may declare some of the additional names that the second one has anyway. -/
theorem Extends.declareLeft (h : Extends names s t) {known : List String}
    (hknown : ∀ x ∈ known, x ∈ names) : Extends names (s.declare known) t where
  size := by rw [s.size_declare, h.size]
  left := h.left.declare known
  right := h.right
  agree := by
    intro i f g hf hg x hx
    rw [ScopeStack.getElem?_declare] at hf
    split at hf
    · obtain ⟨f', hf', rfl⟩ := Option.map_eq_some_iff.mp hf
      have hother : x ∉ known := fun hmem => hx (hknown x hmem)
      rw [Frame.mem_declare, ← h.agree i f' g hf' hg x hx]
      simp [hother]
    · exact h.agree i f g hf hg x hx
  top := h.top

theorem Extends.declare (h : Extends names s t) (more : List String) :
    Extends names (s.declare more) (t.declare more) where
  size := by rw [s.size_declare, t.size_declare, h.size]
  left := h.left.declare more
  right := h.right.declare more
  agree := by
    intro i f g hf hg x hx
    rw [ScopeStack.getElem?_declare] at hf hg
    rw [h.size] at hf
    split at hf
    · rename_i hi
      rw [if_pos hi] at hg
      obtain ⟨f', hf', rfl⟩ := Option.map_eq_some_iff.mp hf
      obtain ⟨g', hg', rfl⟩ := Option.map_eq_some_iff.mp hg
      rw [Frame.mem_declare, Frame.mem_declare, h.agree i f' g' hf' hg' x hx]
    · rename_i hi
      rw [if_neg hi] at hg
      exact h.agree i f g hf hg x hx
  top := by
    intro g hg x hx
    rw [ScopeStack.getElem?_declare] at hg
    split at hg
    · obtain ⟨g', hg', rfl⟩ := Option.map_eq_some_iff.mp hg
      exact (Frame.mem_declare g' more x).mpr (Or.inl (h.top g' hg' x hx))
    · exact h.top g hg x hx

theorem Extends.exit (h : Extends names s t) : Extends names s.exit t.exit := by
  by_cases hmore : 1 < t.frames.size
  · have hmore' : 1 < s.frames.size := by
      rw [h.size]
      exact hmore
    refine ⟨?_, h.left.exit, h.right.exit, ?_, ?_⟩
    · rw [s.frames_exit hmore', t.frames_exit hmore, Array.size_pop, Array.size_pop, h.size]
    · intro i f g hf hg x hx
      rw [s.frames_exit hmore', Array.getElem?_pop] at hf
      rw [t.frames_exit hmore, Array.getElem?_pop] at hg
      split at hf
      · split at hg
        · exact h.agree i f g hf hg x hx
        · cases hg
      · cases hf
    · intro g hg
      rw [t.frames_exit hmore, Array.getElem?_pop, if_pos (by omega)] at hg
      exact h.top g hg
  · have hmore' : ¬1 < s.frames.size := by
      rw [h.size]
      exact hmore
    rwa [ScopeStack.exit, ScopeStack.exit, dif_neg hmore, dif_neg hmore']

/-! ### Two runs side by side -/

/-- One act keeps the relation, and the second run reports the masked event. -/
theorem Extends.after (h : Extends names s t) (a : Act) :
    Extends names (a.after s) (a.after t) ∧
    a.events t = (a.events s).map (Event.masked names) := by
  cases a with
  | enter more =>
    refine ⟨h.enter.declare more, ?_⟩
    show [Event.enteredScope t.enter.depth] = [Event.enteredScope s.enter.depth]
    rw [ScopeStack.depth, ScopeStack.depth, h.enter.size]
  | leave =>
    refine ⟨h.exit, ?_⟩
    have hdepth : s.depth = t.depth := h.size
    have hleft : s.exit.depth = t.exit.depth := h.exit.size
    simp only [Act.events, hdepth, hleft]
    split
    · rfl
    · rfl
  | assign name =>
    have hgives := h.gives_eq name
    refine ⟨?_, ?_⟩
    · show Extends names (if Act.gives s name then _ else s) (if Act.gives t name then _ else t)
      rw [hgives]
      by_cases hname : name ∈ names
      · -- the second run never declares it, whatever the first one does
        have hfalse : (Act.gives s name && decide (name ∉ names)) = false := by simp [hname]
        rw [hfalse]
        split
        · exact h.declareLeft (by simpa using hname)
        · exact h
      · have hsame : (Act.gives s name && decide (name ∉ names)) = Act.gives s name := by
          simp [hname]
        rw [hsame]
        split
        · exact h.declare [name]
        · exact h
    · show [Event.assignment name (Act.gives t name)] = _
      rw [hgives]
      rfl
  | compute => exact ⟨h, rfl⟩
  | reuse => exact ⟨h, rfl⟩

theorem Extends.eventsOf_eq (h : Extends names s t) (acts : List Act) :
    eventsOf t acts = (eventsOf s acts).map (Event.masked names) := by
  induction acts generalizing s t with
  | nil => rfl
  | cons a rest ih =>
    obtain ⟨hafter, hevents⟩ := h.after a
    rw [eventsOf, eventsOf, List.map_append, hevents, ih hafter]

theorem extends_withDeclared (declared names : List String) :
    Extends names (.withDeclared declared) (.withDeclared (declared ++ names)) := by
  have hsplit : ScopeStack.withDeclared (declared ++ names) =
      (ScopeStack.withDeclared declared).declare names := by
    rw [ScopeStack.withDeclared, ScopeStack.withDeclared, ScopeStack.declare_declare]
  have hlinked : (ScopeStack.withDeclared declared).Linked := ScopeStack.linked_new.declare declared
  rw [hsplit]
  refine ⟨?_, hlinked, hlinked.declare names, ?_, ?_⟩
  · rw [ScopeStack.size_declare]
  · intro i f g hf hg x hx
    rw [ScopeStack.getElem?_declare, hf] at hg
    split at hg
    · cases hg
      rw [Frame.mem_declare]
      simp [hx]
    · cases hg
      rfl
  · intro g hg x hx
    rw [ScopeStack.getElem?_declare] at hg
    split at hg
    · obtain ⟨g', hg', rfl⟩ := Option.map_eq_some_iff.mp hg
      exact (Frame.mem_declare g' names x).mpr (Or.inr hx)
    · rename_i hne
      exact absurd (by simp [ScopeStack.withDeclared, ScopeStack.new]) hne

/-! ### Bodies -/

/-- The flags of the assignments that a run reports. -/
def Traced.flags {α : Type} (t : Traced α) : List Bool := (assignments t.events).map Prod.snd

/-- **Initially declared names only remove `var`.**  Declaring `names` besides `declared` keeps the
    events but for the flags of assignments, which are cleared for `names`.  Either both runs fail
    with the same error, or both fill the sketch of the draft,
    each with the flags it reports. -/
theorem renderBody_append (stmts : List Stmt) (declared names : List String) :
    let t := renderBody stmts declared
    let u := renderBody stmts (declared ++ names)
    u.events = t.events.map (Event.masked names) ∧
    ((∃ e, t.result = .error e ∧ u.result = .error e) ∨
      ∃ sketch, (Draft.ofStmts stmts).result = .ok sketch ∧
        sketch.entries.map Prod.fst = (assignments t.events).map Prod.fst ∧
        t.result = .ok (sketch.fill t.flags) ∧ u.result = .ok (sketch.fill u.flags)) := by
  intro t u
  have ht : t = _ := renderBody_eq_draft stmts declared
  have hu : u = _ := renderBody_eq_draft stmts (declared ++ names)
  have htflags : assignments t.events = _ := assignments_renderBody stmts declared
  have huflags : assignments u.events = _ := assignments_renderBody stmts (declared ++ names)
  have hevents := (extends_withDeclared declared names).eventsOf_eq (Draft.ofStmts stmts).acts
  constructor
  · rw [ht, hu]
    simp only [hevents, List.map_append]
    cases (Draft.ofStmts stmts).result with
    | error e => rfl
    | ok sketch => rfl
  · rw [Traced.flags, Traced.flags, htflags, huflags, assignments_eventsOf]
    rw [ht, hu]
    cases hd : (Draft.ofStmts stmts).result with
    | error e => exact Or.inl ⟨e, rfl, rfl⟩
    | ok sketch => exact Or.inr ⟨sketch, rfl, Draft.entries_ofStmts hd, rfl, rfl⟩

end ScriptTree
