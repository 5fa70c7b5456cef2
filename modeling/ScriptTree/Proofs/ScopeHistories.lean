/-
  ScriptTree/Proofs/ScopeHistories.lean
  =====================================
  **A scope stack after any history.**  Frames may be opened and dropped and names declared in any
  order, also with more exits than there are frames to drop.  What a stack looks like afterwards can
  be told from the operations alone (`scopes_follow_history`):

    * its depth is one more than the number of enters that no exit has undone (`standing`);
    * each frame has the one below it as its parent, so a look-up ends at the top level;
    * a name is known if it was known at the start, or if it was declared in a frame that has lasted
      until now (`Lasts`).

  Frames are known by their places, and a place is used again after its frame is dropped.  A history
  is therefore followed from its first operation on: `drops` counts how many of the frames that are
  there at the start do not survive it, and the frames below those are left alone.
-/
import Mathlib.Data.List.Infix
import ScriptTree.Proofs.ScopeLaws

namespace ScriptTree

/-- What can be done to a scope stack. -/
inductive ScopeOp where
  | enter
  | exit
  | declare (names : List String)
  deriving DecidableEq

namespace ScopeStack

/-- What an operation answers, and the stack behind it.  Opening a frame tells its place. -/
def perform (s : ScopeStack) : ScopeOp → Option ScopeId × ScopeStack
  | .enter => (some s.enter.current, s.enter)
  | .exit => (none, s.exit)
  | .declare names => (none, s.declare names)

/-- The stack after some operations, in order. -/
def after (s : ScopeStack) (ops : List ScopeOp) : ScopeStack :=
  ops.foldl (fun s op => (s.perform op).2) s

/-- The path that a look-up takes from a frame through the parents, up to a frame without one.  Every
    place on it holds a frame. -/
inductive Walk (s : ScopeStack) : Option ScopeId → List Nat → Prop
  | done : Walk s none []
  | step {id : ScopeId} {f : Frame} {path : List Nat} : s.frames[id.index]? = some f →
      Walk s f.parent path → Walk s (some id) (id.index :: path)

end ScopeStack

/-! ### Histories by themselves -/

namespace ScopeOp

/-- These operations leave the frame alone that is innermost before them: at no point were there more
    exits than enters. -/
def Keeps (ops : List ScopeOp) : Prop :=
  ∀ front, front <+: ops → front.count .exit ≤ front.count .enter

instance (ops : List ScopeOp) : Decidable (Keeps ops) :=
  decidable_of_iff (∀ front ∈ ops.inits, front.count .exit ≤ front.count .enter) (by
    simp only [List.mem_inits]
    rfl)

/-- The number of enters that no later exit has undone. -/
def standing : List ScopeOp → Nat
  | [] => 0
  | op :: ops => standing ops + if op = .enter ∧ Keeps ops then 1 else 0

/-- The frame that was innermost after the earlier operations is still there after the later ones:
    it is the top level, or the later ones have left it alone. -/
def Lasts (earlier later : List ScopeOp) : Prop := standing earlier = 0 ∨ Keeps later

/-- How many of the frames that are open before these operations are dropped by them, if there are
    enough of them. -/
def drops : List ScopeOp → Nat
  | [] => 0
  | .enter :: ops => drops ops - 1
  | .exit :: ops => drops ops + 1
  | .declare _ :: ops => drops ops

theorem forall_prefix_cons {P : List ScopeOp → Prop} (op : ScopeOp) (ops : List ScopeOp) :
    (∀ front, front <+: op :: ops → P front) ↔ P [] ∧ ∀ front, front <+: ops → P (op :: front) := by
  simp only [List.prefix_cons_iff]
  constructor
  · intro h
    exact ⟨h [] (Or.inl rfl), fun front hfront => h _ (Or.inr ⟨front, rfl, hfront⟩)⟩
  · rintro ⟨hnil, hrest⟩ front (rfl | ⟨rest, rfl, hprefix⟩)
    · exact hnil
    · exact hrest rest hprefix

theorem drops_le_iff (ops : List ScopeOp) (n : Nat) :
    drops ops ≤ n ↔ ∀ front, front <+: ops → front.count .exit ≤ front.count .enter + n := by
  induction ops generalizing n with
  | nil => simp [drops]
  | cons op ops ih =>
    rw [forall_prefix_cons]
    cases op with
    | enter =>
      simp only [drops, List.count_nil, Nat.zero_le, true_and, List.count_cons_self,
        List.count_cons_of_ne (by decide : ScopeOp.enter ≠ .exit)]
      rw [Nat.sub_le_iff_le_add]
      refine (ih (n + 1)).trans (forall₂_congr fun front _ => ?_)
      omega
    | exit =>
      simp only [drops, List.count_nil, Nat.zero_le, true_and, List.count_cons_self,
        List.count_cons_of_ne (by decide : ScopeOp.exit ≠ .enter)]
      cases n with
      | zero =>
        refine iff_of_false (Nat.not_succ_le_zero _) fun h => ?_
        have hfirst := h [] List.nil_prefix
        simp at hfirst
      | succ n =>
        rw [Nat.add_le_add_iff_right]
        refine (ih n).trans (forall₂_congr fun front _ => ?_)
        omega
    | declare names => simpa [drops] using ih n

theorem keeps_iff (ops : List ScopeOp) : Keeps ops ↔ drops ops = 0 := by
  rw [← Nat.le_zero, drops_le_iff]
  rfl

theorem standing_enter (ops : List ScopeOp) :
    standing (.enter :: ops) = standing ops + if drops ops = 0 then 1 else 0 := by
  simp only [standing, true_and, keeps_iff]

theorem standing_exit (ops : List ScopeOp) : standing (.exit :: ops) = standing ops := by
  simp [standing]

theorem standing_declare (names : List String) (ops : List ScopeOp) :
    standing (.declare names :: ops) = standing ops := by
  simp [standing]

/-- Every exit undoes an enter or drops a frame from before. -/
theorem standing_add_count_exit (ops : List ScopeOp) :
    standing ops + ops.count .exit = ops.count .enter + drops ops := by
  induction ops with
  | nil => rfl
  | cons op ops ih =>
    cases op with
    | enter =>
      rw [standing_enter, drops, List.count_cons_self, List.count_cons_of_ne (by decide)]
      split <;> omega
    | exit =>
      rw [standing_exit, drops, List.count_cons_self, List.count_cons_of_ne (by decide)]
      omega
    | declare names =>
      rw [standing_declare, drops, List.count_cons_of_ne (by simp),
        List.count_cons_of_ne (by simp), ih]

end ScopeOp

open ScopeOp

/-! ### The stack after a history -/

namespace ScopeStack

variable {s : ScopeStack}

theorem after_append (s : ScopeStack) (ops more : List ScopeOp) :
    s.after (ops ++ more) = (s.after ops).after more := List.foldl_append

theorem size_exit (s : ScopeStack) : s.exit.frames.size - 1 = s.frames.size - 1 - 1 := by
  by_cases hmore : 1 < s.frames.size
  · rw [frames_exit s hmore, Array.size_pop]
  · rw [exit, dif_neg hmore]
    omega

/-- No operation breaks the chain of parents. -/
theorem Linked.perform (h : s.Linked) (op : ScopeOp) : (s.perform op).2.Linked := by
  cases op with
  | enter => exact h.enter
  | exit => exact h.exit
  | declare names => exact h.declare names

theorem Linked.after (h : s.Linked) (ops : List ScopeOp) : (s.after ops).Linked := by
  induction ops generalizing s with
  | nil => exact h
  | cons op ops ih => exact ih (h.perform op)

theorem depth_after (s : ScopeStack) (ops : List ScopeOp) :
    (s.after ops).depth = 1 + standing ops + (s.depth - 1 - drops ops) := by
  induction ops generalizing s with
  | nil =>
    have hpos := s.nonempty
    simp only [after, List.foldl_nil, standing, drops, depth]
    omega
  | cons op ops ih =>
    have hpos := s.nonempty
    have hrest := ih (s.perform op).2
    change (s.after (op :: ops)).depth = _ at hrest
    rw [hrest]
    cases op with
    | enter =>
      simp only [perform, depth, size_enter, standing_enter, drops]
      split <;> omega
    | exit =>
      simp only [perform, depth, size_exit, standing_exit, drops]
      omega
    | declare names => simp only [perform, depth, size_declare, standing_declare, drops]

/-- Frames below those that a history drops are as they were. -/
theorem getElem?_after {ops : List ScopeOp} {i : Nat} (h : i + drops ops + 1 < s.frames.size) :
    (s.after ops).frames[i]? = s.frames[i]? := by
  induction ops generalizing s with
  | nil => rfl
  | cons op ops ih =>
    change ((s.perform op).2.after ops).frames[i]? = _
    cases op with
    | enter =>
      rw [drops] at h
      rw [perform, ih (by rw [size_enter]; omega), getElem?_enter, if_neg (by omega)]
    | exit =>
      rw [drops] at h
      have hframes := frames_exit s (by omega)
      rw [perform, ih (by rw [hframes, Array.size_pop]; omega), hframes, Array.getElem?_pop,
        if_pos (by omega)]
    | declare names =>
      rw [drops] at h
      rw [perform, ih (by rw [size_declare]; omega), getElem?_declare, if_neg (by omega)]

/-- Operations that keep the frame opened before them and undo all enters of their own are forgotten
    when that frame is dropped. -/
theorem after_scope (s : ScopeStack) {block : List ScopeOp} (hkeeps : Keeps block)
    (hcount : block.count .exit = block.count .enter) : (s.enter.after block).exit = s := by
  have hpos := s.nonempty
  rw [keeps_iff] at hkeeps
  have hsize : (s.enter.after block).frames.size = s.frames.size + 1 := by
    have hstanding := standing_add_count_exit block
    have hdepth := depth_after s.enter block
    simp only [depth, size_enter] at hdepth
    omega
  have hframes := frames_exit (s.enter.after block) (by omega)
  apply ext_frames
  rw [hframes]
  refine Array.ext_getElem? fun i => ?_
  rw [Array.getElem?_pop, hsize]
  by_cases hi : i < s.frames.size
  · rw [if_pos (by omega), getElem?_after (by rw [size_enter]; omega), getElem?_enter,
      if_neg (by omega)]
  · rw [if_neg (by omega), Array.getElem?_eq_none (by omega)]

/-! ### Looking names up -/

/-- From the frame at `k` a look-up passes `k`, `k - 1` and so on down to the top level. -/
theorem Linked.walk (h : s.Linked) {k : Nat} (hk : k < s.frames.size) :
    s.Walk (some ⟨k⟩) (List.range (k + 1)).reverse := by
  induction k with
  | zero =>
    have hframe : s.frames[0]? = some s.frames[0] := Array.getElem?_eq_getElem hk
    have hparent : s.frames[0].parent = none := h 0 _ hframe
    exact .step hframe (hparent ▸ .done)
  | succ k ih =>
    have hframe : s.frames[k + 1]? = some s.frames[k + 1] := Array.getElem?_eq_getElem hk
    have hparent : s.frames[k + 1].parent = some ⟨k⟩ := h (k + 1) _ hframe
    rw [List.range_succ, List.reverse_append]
    exact .step hframe (hparent ▸ ih (by omega))

/-- A name was declared by these operations in a frame that has lasted. -/
def Declares (s : ScopeStack) (ops : List ScopeOp) (x : String) : Prop :=
  ∃ earlier names later, ops = earlier ++ .declare names :: later ∧ x ∈ names ∧
    ((s.after earlier).depth = 1 ∨ Keeps later)

theorem declares_cons {op : ScopeOp} {ops : List ScopeOp} {x : String} :
    s.Declares (op :: ops) x ↔
      (∃ names, op = .declare names ∧ x ∈ names ∧ (s.depth = 1 ∨ Keeps ops)) ∨
        (s.perform op).2.Declares ops x := by
  constructor
  · rintro ⟨earlier, names, later, hsplit, hx, hlasts⟩
    cases earlier with
    | nil =>
      cases hsplit
      exact Or.inl ⟨names, rfl, hx, hlasts⟩
    | cons first earlier =>
      cases hsplit
      exact Or.inr ⟨earlier, names, later, rfl, hx, hlasts⟩
  · rintro (⟨names, rfl, hx, hlasts⟩ | ⟨earlier, names, later, rfl, hx, hlasts⟩)
    · exact ⟨[], names, ops, rfl, hx, hlasts⟩
    · exact ⟨op :: earlier, names, later, rfl, hx, hlasts⟩

/-- What is known after a history was known in the frames that are left, or has been declared. -/
theorem Linked.contains_after (h : s.Linked) (ops : List ScopeOp) (x : String) :
    (s.after ops).contains x = true ↔ s.VisibleAt (s.depth - 1 - drops ops) x ∨ s.Declares ops x := by
  induction ops generalizing s with
  | nil =>
    have hnone : ¬s.Declares [] x := by
      rintro ⟨earlier, names, later, hsplit, -⟩
      simp at hsplit
    rw [or_iff_left hnone]
    exact h.contains_iff x
  | cons op ops ih =>
    have hpos := s.nonempty
    refine (ih (h.perform op)).trans ?_
    rw [declares_cons, ← or_assoc]
    refine or_congr_left ?_
    cases op with
    | enter =>
      simp only [ScopeStack.perform, depth, size_enter, drops, visibleAt_enter, Nat.add_sub_cancel,
        reduceCtorEq, false_and, exists_false, or_false]
      by_cases hdrops : drops ops = 0
      · rw [hdrops]
        exact visibleAt_size x
      · have hlevel : s.frames.size - drops ops = s.frames.size - 1 - (drops ops - 1) := by omega
        rw [hlevel]
    | exit =>
      simp only [ScopeStack.perform, depth, size_exit, drops, reduceCtorEq, false_and, exists_false,
        or_false]
      have hlevel : s.frames.size - 1 - 1 - drops ops = s.frames.size - 1 - (drops ops + 1) := by
        omega
      rw [hlevel]
      by_cases hmore : 1 < s.frames.size
      · exact visibleAt_exit (by omega) x
      · rw [ScopeStack.exit, dif_neg hmore]
    | declare names =>
      simp only [ScopeStack.perform, depth, size_declare, drops, keeps_iff, ScopeOp.declare.injEq,
        exists_eq_left']
      by_cases hlasts : s.frames.size = 1 ∨ drops ops = 0
      · have hlevel : s.frames.size - 1 - drops ops = s.frames.size - 1 := by omega
        rw [hlevel, visibleAt_declare, and_iff_left hlasts]
      · rw [visibleAt_declare_of_lt (by omega)]
        simp [hlasts]

end ScopeStack

/-- The stack that started with some names declared at the top level, after a history. -/
def stackAfter (initial : List String) (history : List ScopeOp) : ScopeStack :=
  (ScopeStack.withDeclared initial).after history

section History

variable (initial : List String) (history : List ScopeOp)

theorem linked_stackAfter : (stackAfter initial history).Linked :=
  (ScopeStack.linked_new.declare initial).after history

theorem depth_stackAfter : (stackAfter initial history).depth = 1 + standing history := by
  have hdepth := (ScopeStack.withDeclared initial).depth_after history
  have hone : (ScopeStack.withDeclared initial).depth = 1 := ScopeStack.new.size_declare initial
  rw [hone] at hdepth
  simpa [stackAfter] using hdepth

theorem contains_stackAfter (x : String) :
    (stackAfter initial history).contains x = true ↔ x ∈ initial ∨
      ∃ earlier names later, history = earlier ++ .declare names :: later ∧ x ∈ names ∧
        Lasts earlier later := by
  have hlinked : (ScopeStack.withDeclared initial).Linked := ScopeStack.linked_new.declare initial
  have hone : (ScopeStack.withDeclared initial).depth = 1 := ScopeStack.new.size_declare initial
  have hlevel : (ScopeStack.withDeclared initial).depth - 1 - drops history = 0 := by omega
  rw [stackAfter, hlinked.contains_after, hlevel, ScopeStack.visibleAt_withDeclared]
  refine or_congr_right ?_
  unfold ScopeStack.Declares
  simp only [Lasts]
  have htop : ∀ earlier, ((ScopeStack.withDeclared initial).after earlier).depth = 1 ↔
      standing earlier = 0 := by
    intro earlier
    have hdepth := depth_stackAfter initial earlier
    rw [stackAfter] at hdepth
    omega
  simp only [htop]

/-- **A scope stack after any history.**  The depth counts the enters that stand.  The frames are
    chained, and a look-up passes all of them and ends, whatever bounds it.  An exit at the top level
    does nothing, and an enter tells the place of the frame that it opened, which is empty.  The
    names known are those of the start and those declared in frames that have lasted.  A scope that
    was entered and left again leaves no trace, so that whoever enters at the same place finds none
    of its names. -/
theorem scopes_follow_history :
    (stackAfter initial history).depth = 1 + standing history ∧
    let s := stackAfter initial history
    (∀ i f, s.frames[i]? = some f → f.parent = if i = 0 then none else some ⟨i - 1⟩) ∧
    s.Walk (some s.current) (List.range s.depth).reverse ∧
    (∀ x bound, s.depth ≤ bound → s.declaredFrom x bound (some s.current) = s.contains x) ∧
    (s.depth = 1 → (s.perform .exit).2 = s) ∧
    (∀ answer t, s.perform .enter = (answer, t) →
      answer = some ⟨t.depth - 1⟩ ∧ t.frames[t.depth - 1]? = some ⟨some s.current, []⟩) ∧
    (∀ x, s.contains x = true ↔ x ∈ initial ∨
      ∃ earlier names later, history = earlier ++ .declare names :: later ∧ x ∈ names ∧
        Lasts earlier later) ∧
    ∀ block, Keeps block → block.count .exit = block.count .enter →
      stackAfter initial (history ++ .enter :: block ++ [.exit]) = s := by
  refine ⟨depth_stackAfter initial history, ?_⟩
  intro s
  have hlinked : s.Linked := linked_stackAfter initial history
  have hpos := s.nonempty
  have hplaces : s.frames.size - 1 + 1 = s.depth := Nat.sub_add_cancel hpos
  refine ⟨hlinked, ?_, ?_, ?_, ?_, contains_stackAfter initial history, ?_⟩
  · rw [← hplaces]
    exact hlinked.walk (by omega)
  · intro x bound hbound
    rw [Bool.eq_iff_iff, hlinked.contains_iff]
    exact hlinked.declaredFrom_iff x _ _ (by omega) (by omega)
  · intro hone
    change s.exit = s
    rw [ScopeStack.exit, dif_neg (by simp only [ScopeStack.depth] at hone; omega)]
  · rintro answer t ⟨⟩
    refine ⟨rfl, ?_⟩
    rw [ScopeStack.depth, ScopeStack.size_enter, Nat.add_sub_cancel, ScopeStack.getElem?_enter,
      if_pos rfl]
  · intro block hkeeps hcount
    rw [stackAfter, List.append_assoc, ScopeStack.after_append]
    change ((s.enter.after (block ++ [.exit]))) = s
    rw [ScopeStack.after_append]
    exact s.after_scope hkeeps hcount

end History

/-- An exit too many at the top level, a name declared there, and then a scope that is left again, with
    a name and another scope in it. -/
theorem scopes_follow_history_reentered :
    Keeps [.declare ["x"], .enter, .exit] ∧ Lasts [.exit] [] ∧
    (stackAfter ["a"] [.exit, .declare ["b"]]).contains "b" = true ∧
    stackAfter ["a"]
        ([.exit, .declare ["b"]] ++ .enter :: [.declare ["x"], .enter, .exit] ++ [.exit]) =
      stackAfter ["a"] [.exit, .declare ["b"]] := by
  have hkeeps : Keeps [.declare ["x"], .enter, .exit] := by decide
  have hlasts : Lasts [.exit] [] := Or.inl rfl
  obtain ⟨-, -, -, -, -, -, hcontains, hscope⟩ := scopes_follow_history ["a"] [.exit, .declare ["b"]]
  refine ⟨hkeeps, hlasts, ?_, hscope _ hkeeps rfl⟩
  exact (hcontains "b").mpr (Or.inr ⟨[.exit], ["b"], [], rfl, List.mem_singleton_self _, hlasts⟩)

end ScriptTree
