/-
  ScriptTree/Proofs/ScopeLaws.lean
  ================================
  **Laws of the scope stack.**  Opening a frame, declaring names in it and dropping it again gives
  the stack back (`exit_declare_enter`); declaring twice is declaring once (`declare_declare`), and
  only the innermost frame is written to.  In a stack made by these operations the parent of a frame
  is the frame below it (`Linked`), so looking a name up is looking through all frames
  (`contains_iff`).
-/
import ScriptTree.Render.Scope
import Mathlib.Data.List.Basic

namespace ScriptTree

theorem Frame.declare_declare (f : Frame) (names more : List String) :
    (f.declare names).declare more = f.declare (names ++ more) := by
  simp only [Frame.declare, List.foldl_append]

theorem Frame.mem_declare (f : Frame) (names : List String) (x : String) :
    x ∈ (f.declare names).names ↔ x ∈ f.names ∨ x ∈ names := by
  induction names generalizing f with
  | nil => simp [Frame.declare]
  | cons n rest ih =>
    have hsplit : f.declare (n :: rest) = (f.declare [n]).declare rest := by
      rw [Frame.declare_declare, List.singleton_append]
    rw [hsplit, ih, List.mem_cons]
    simp only [Frame.declare, List.foldl_cons, List.foldl_nil, List.mem_insert_iff]
    tauto

namespace ScopeStack

variable (s : ScopeStack)

theorem ext_frames {s t : ScopeStack} (h : s.frames = t.frames) : s = t := by
  cases s
  cases t
  simpa using h

@[simp]
theorem size_enter : s.enter.frames.size = s.frames.size + 1 := by
  simp [enter]

@[simp]
theorem size_declare (names : List String) : (s.declare names).frames.size = s.frames.size := by
  simp [declare]

theorem declare_nil : s.declare [] = s := by
  apply ext_frames
  ext i hi hi'
  · simp [declare]
  · simp [declare, Array.getElem_modify, Frame.declare]

theorem declare_declare (names more : List String) :
    (s.declare names).declare more = s.declare (names ++ more) := by
  apply ext_frames
  ext i hi hi'
  · simp [declare]
  · simp only [declare, Array.getElem_modify, Array.size_modify]
    split <;> simp [Frame.declare_declare]

/-- What is declared in a frame goes with it. -/
theorem exit_declare_enter (names : List String) : (s.enter.declare names).exit = s := by
  have hmore : 1 < (s.enter.declare names).frames.size := by
    have := s.nonempty
    simp
    omega
  rw [exit, dif_pos hmore]
  apply ext_frames
  ext1
  · simp
  · rename_i i hi hi'
    have hne : s.frames.size ≠ i := by omega
    simp [declare, enter, Array.getElem_modify, hne, Array.getElem_push_lt hi']

def innermost : Frame := s.frames.back s.nonempty

theorem innermost_declare (names : List String) :
    (s.declare names).innermost = s.innermost.declare names := by
  simp [innermost, declare, Array.back, Array.getElem_modify]

theorem pop_declare (names : List String) : (s.declare names).frames.pop = s.frames.pop := by
  ext1
  · simp
  · rename_i i hi hi'
    have hne : s.frames.size - 1 ≠ i := by
      rw [Array.size_pop] at hi'
      omega
    simp [declare, Array.getElem_modify, hne]

/-! ### Looking names up -/

/-- The names declared in the first frames, up to and including the one at `k`. -/
def VisibleAt (k : Nat) (x : String) : Prop := ∃ i ≤ k, ∃ f, s.frames[i]? = some f ∧ x ∈ f.names

/-- Each frame has the one below it as its parent. -/
def Linked : Prop :=
  ∀ (i : Nat) (f : Frame), s.frames[i]? = some f → f.parent = if i = 0 then none else some ⟨i - 1⟩

theorem getElem?_enter (i : Nat) :
    s.enter.frames[i]? = if i = s.frames.size then some ⟨some s.current, []⟩ else s.frames[i]? := by
  rw [enter, Array.getElem?_push]

theorem getElem?_declare (names : List String) (i : Nat) :
    (s.declare names).frames[i]? =
      if s.frames.size - 1 = i then s.frames[i]?.map (Frame.declare · names) else s.frames[i]? := by
  rw [declare, Array.getElem?_modify]

theorem frames_exit (h : 1 < s.frames.size) : s.exit.frames = s.frames.pop := by
  rw [exit, dif_pos h]

theorem linked_new : new.Linked := by
  intro i f hf
  cases i with
  | zero =>
    cases hf
    rfl
  | succ i => simp [new] at hf

variable {s}

theorem Linked.enter (h : s.Linked) : s.enter.Linked := by
  intro i f hf
  rw [getElem?_enter] at hf
  split at hf
  · rename_i hi
    cases hf
    have hpos := s.nonempty
    rw [if_neg (by omega), hi]
    rfl
  · exact h i f hf

theorem Linked.declare (h : s.Linked) (names : List String) : (s.declare names).Linked := by
  intro i f hf
  rw [getElem?_declare] at hf
  split at hf
  · obtain ⟨g, hg, rfl⟩ := Option.map_eq_some_iff.mp hf
    exact h i g hg
  · exact h i f hf

theorem Linked.exit (h : s.Linked) : s.exit.Linked := by
  by_cases hmore : 1 < s.frames.size
  · intro i f hf
    rw [frames_exit s hmore, Array.getElem?_pop] at hf
    split at hf
    · exact h i f hf
    · cases hf
  · rwa [ScopeStack.exit, dif_neg hmore]

theorem visibleAt_zero {f : Frame} (hf : s.frames[0]? = some f) (x : String) :
    s.VisibleAt 0 x ↔ x ∈ f.names := by
  constructor
  · rintro ⟨i, hi, g, hg, hx⟩
    obtain rfl : i = 0 := Nat.le_zero.mp hi
    rw [hf] at hg
    cases hg
    exact hx
  · intro hx
    exact ⟨0, Nat.le_refl 0, f, hf, hx⟩

theorem visibleAt_succ {k : Nat} {f : Frame} (hf : s.frames[k + 1]? = some f) (x : String) :
    s.VisibleAt (k + 1) x ↔ x ∈ f.names ∨ s.VisibleAt k x := by
  constructor
  · rintro ⟨i, hi, g, hg, hx⟩
    rcases Nat.lt_or_eq_of_le hi with hlt | rfl
    · exact Or.inr ⟨i, Nat.lt_succ_iff.mp hlt, g, hg, hx⟩
    · rw [hf] at hg
      cases hg
      exact Or.inl hx
  · rintro (hx | ⟨i, hi, g, hg, hx⟩)
    · exact ⟨k + 1, Nat.le_refl _, f, hf, hx⟩
    · exact ⟨i, Nat.le_succ_of_le hi, g, hg, hx⟩

/-- Walking from a frame through the parents passes all frames below it. -/
theorem Linked.declaredFrom_iff (h : s.Linked) (x : String) (k fuel : Nat)
    (hk : k < s.frames.size) (hfuel : k < fuel) :
    s.declaredFrom x fuel (some ⟨k⟩) = true ↔ s.VisibleAt k x := by
  induction k generalizing fuel with
  | zero =>
    obtain ⟨fuel, rfl⟩ := Nat.exists_eq_succ_of_ne_zero (Nat.ne_of_gt hfuel)
    have hframe : s.frames[0]? = some s.frames[0] := Array.getElem?_eq_getElem hk
    have hparent : s.frames[0].parent = none := h 0 _ hframe
    rw [visibleAt_zero hframe]
    simp only [declaredFrom, hframe, hparent, Bool.or_false, List.contains_iff_mem]
  | succ k ih =>
    obtain ⟨fuel, rfl⟩ := Nat.exists_eq_succ_of_ne_zero (Nat.ne_of_gt (Nat.zero_lt_of_lt hfuel))
    have hframe : s.frames[k + 1]? = some s.frames[k + 1] := Array.getElem?_eq_getElem hk
    have hparent : s.frames[k + 1].parent = some ⟨k⟩ := h (k + 1) _ hframe
    have hrest := ih fuel (by omega) (by omega)
    rw [visibleAt_succ hframe, ← hrest]
    simp only [declaredFrom, hframe, hparent, Bool.or_eq_true, List.contains_iff_mem]

/-- A name is declared when it is declared in some frame. -/
theorem Linked.contains_iff (h : s.Linked) (x : String) :
    s.contains x = true ↔ s.VisibleAt (s.frames.size - 1) x := by
  have hpos := s.nonempty
  exact h.declaredFrom_iff x _ _ (by omega) (by omega)

theorem visibleAt_congr {t : ScopeStack} {k : Nat} (h : ∀ i ≤ k, s.frames[i]? = t.frames[i]?)
    (x : String) : s.VisibleAt k x ↔ t.VisibleAt k x := by
  constructor
  · rintro ⟨i, hi, f, hf, hx⟩
    exact ⟨i, hi, f, (h i hi).symm.trans hf, hx⟩
  · rintro ⟨i, hi, f, hf, hx⟩
    exact ⟨i, hi, f, (h i hi).trans hf, hx⟩

/-- Frames further out do not see what is declared in the innermost one. -/
theorem visibleAt_declare_of_lt {k : Nat} (hk : k < s.frames.size - 1) (names : List String)
    (x : String) : (s.declare names).VisibleAt k x ↔ s.VisibleAt k x := by
  apply visibleAt_congr
  intro i hi
  rw [getElem?_declare, if_neg (by omega)]

theorem visibleAt_declare (names : List String) (x : String) :
    (s.declare names).VisibleAt (s.frames.size - 1) x ↔
      s.VisibleAt (s.frames.size - 1) x ∨ x ∈ names := by
  have hpos := s.nonempty
  constructor
  · rintro ⟨i, hi, f, hf, hx⟩
    rw [getElem?_declare] at hf
    split at hf
    · obtain ⟨g, hg, rfl⟩ := Option.map_eq_some_iff.mp hf
      rcases (Frame.mem_declare g names x).mp hx with hold | hnew
      · exact Or.inl ⟨i, hi, g, hg, hold⟩
      · exact Or.inr hnew
    · exact Or.inl ⟨i, hi, f, hf, hx⟩
  · obtain ⟨last, hlast⟩ : ∃ f, s.frames[s.frames.size - 1]? = some f :=
      ⟨_, Array.getElem?_eq_getElem (by omega)⟩
    rintro (⟨i, hi, f, hf, hx⟩ | hnew)
    · by_cases hi' : s.frames.size - 1 = i
      · refine ⟨i, hi, f.declare names, ?_, (Frame.mem_declare f names x).mpr (Or.inl hx)⟩
        rw [getElem?_declare, if_pos hi', hf]
        rfl
      · refine ⟨i, hi, f, ?_, hx⟩
        rw [getElem?_declare, if_neg hi', hf]
    · refine ⟨_, Nat.le_refl _, last.declare names, ?_,
        (Frame.mem_declare last names x).mpr (Or.inr hnew)⟩
      rw [getElem?_declare, if_pos rfl, hlast]
      rfl

theorem visibleAt_size (x : String) :
    s.VisibleAt s.frames.size x ↔ s.VisibleAt (s.frames.size - 1) x := by
  constructor
  · rintro ⟨i, -, f, hf, hx⟩
    have hlt : i < s.frames.size := (Array.getElem?_eq_some_iff.mp hf).1
    exact ⟨i, by omega, f, hf, hx⟩
  · rintro ⟨i, hi, f, hf, hx⟩
    exact ⟨i, by omega, f, hf, hx⟩

theorem visibleAt_enter (k : Nat) (x : String) : s.enter.VisibleAt k x ↔ s.VisibleAt k x := by
  constructor
  · rintro ⟨i, hi, f, hf, hx⟩
    rw [getElem?_enter] at hf
    split at hf
    · cases hf
      cases hx
    · exact ⟨i, hi, f, hf, hx⟩
  · rintro ⟨i, hi, f, hf, hx⟩
    have hlt : i < s.frames.size := (Array.getElem?_eq_some_iff.mp hf).1
    refine ⟨i, hi, f, ?_, hx⟩
    rw [getElem?_enter, if_neg (by omega), hf]

theorem visibleAt_exit {k : Nat} (hk : k + 1 < s.frames.size) (x : String) :
    s.exit.VisibleAt k x ↔ s.VisibleAt k x := by
  apply visibleAt_congr
  intro i hi
  rw [frames_exit s (by omega), Array.getElem?_pop, if_pos (by omega)]

theorem visibleAt_withDeclared (initial : List String) (x : String) :
    (withDeclared initial).VisibleAt 0 x ↔ x ∈ initial := by
  have hnew : ¬new.VisibleAt 0 x := by
    rintro ⟨i, hi, f, hf, hx⟩
    obtain rfl : i = 0 := Nat.le_zero.mp hi
    cases hf
    cases hx
  exact (visibleAt_declare initial x).trans (or_iff_right hnew)

end ScopeStack

end ScriptTree
