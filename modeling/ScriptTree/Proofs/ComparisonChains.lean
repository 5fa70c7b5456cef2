/-
  ScriptTree/Proofs/ComparisonChains.lean
  =======================================
  **A chain of comparisons is a conjunction.**  `a < b < c` can be rendered if and only if
  `a < b && b < c` can, and then to the same text (`renderExpr_chain`).  The two go different ways:
  the chain renders each operand once and pairs the texts afterwards, the conjunction renders the
  operands of every comparison, those in the middle two times.  What they store and report tells
  them apart.

  The text comes of one induction along the chain (`gives_neighbours`), with what the operands so far
  gave as the state.  With a single operator the two would differ by a pair of brackets.
-/
import ScriptTree.Proofs.FieldCounts
import ScriptTree.Proofs.UniqueReading
import ScriptTree.Proofs.VarPlacement

namespace ScriptTree

open Rendition

variable {κ κ' : Type} [DecidableEq κ] [DecidableEq κ'] {α : Type}

/-- The comparisons between neighbours of a chain. -/
def neighbours : Expr → List CmpOperator → List Expr → List (ExprForm Expr)
  | left, op :: ops, right :: rest => .compare left [op] [right] :: neighbours right ops rest
  | _, _, _ => []

/-- The number of texts that are stored when an expression is rendered on its own. -/
def Expr.storedAlone (e : Expr) : Nat :=
  (Renderer.renderExpr (id : Place → Place) e Renderer.new).renderer.stats.computed

/-- What is reported when an expression is rendered on its own. -/
def Expr.eventsAlone (s : ScopeStack) (e : Expr) : List Event :=
  (Renderer.renderExpr (id : Place → Place) e (Renderer.withScopes s)).events

/-! ### Passes over one expression -/

/-- What a pass over an expression reports and counts are the acts of its draft. -/
theorem renderExpr_performs (keyOf : Place → κ) {e : Expr} (hkeys : Set.InjOn keyOf (e.nodes []))
    (r : Renderer κ) :
    (Renderer.renderExpr keyOf e r).events = eventsOf r.scopes (e.direct : Draft String).acts ∧
    (Renderer.renderExpr keyOf e r).renderer.stats =
      statsAfter ⟨0, 0⟩ (e.direct : Draft String).acts := by
  have hfollows := (drafting keyOf (e.nodes []) hkeys).render_expr e [] subset_rfl
  obtain ⟨-, htracks⟩ := hfollows.1 r.startPass fresh_empty
  exact ⟨htracks.events, htracks.stats⟩

theorem renderExpr_counts (keyOf : Place → κ) {e : Expr} (hkeys : Set.InjOn keyOf (e.nodes []))
    (r : Renderer κ) (hsupported : e.supported = true) :
    (Renderer.renderExpr keyOf e r).renderer.stats = ⟨e.fieldsRead, 0⟩ := by
  obtain ⟨text, htext⟩ := e.draft_succeeds_iff.mpr hsupported
  obtain ⟨hreads, hhits⟩ := e.draft_costs text htext
  rw [(renderExpr_performs keyOf hkeys r).2, statsAfter, hreads, hhits]
  simp

theorem renderExpr_ok_iff (keyOf : Place → κ) {e : Expr} (hkeys : Set.InjOn keyOf (e.nodes []))
    (r : Renderer κ) :
    (∃ text, (Renderer.renderExpr keyOf e r).result = .ok text) ↔ e.supported = true := by
  rw [renderExpr_result keyOf hkeys r]
  exact e.draft_succeeds_iff

theorem Expr.storedAlone_eq {e : Expr} (hsupported : e.supported = true) :
    e.storedAlone = e.fieldsRead := by
  rw [storedAlone, renderExpr_counts id (Set.injOn_id _) Renderer.new hsupported]

theorem Expr.eventsAlone_eq (s : ScopeStack) (e : Expr) :
    e.eventsAlone s = eventsOf s (e.direct : Draft String).acts :=
  (renderExpr_performs id (Set.injOn_id _) (Renderer.withScopes s)).1

/-! ### Drafts in a row -/

namespace Draft

/-- Drafts that all succeed do what each of them does, in order. -/
theorem acts_all {ι : Type} {f : ι → Draft α} {xs : List ι} {as : List α}
    (h : (all (xs.map f)).Gives as) : (all (xs.map f)).acts = xs.flatMap fun x => (f x).acts := by
  induction xs generalizing as with
  | nil => rfl
  | cons x rest ih =>
    obtain ⟨a, ha, h⟩ := result_of_bind h
    obtain ⟨more, hmore, -⟩ := result_of_bind h
    rw [List.flatMap_cons, ← ih hmore]
    show (f x >>= fun a => all (rest.map f) >>= fun as => pure (a :: as)).acts = _
    rw [bind_of_ok ha, bind_of_ok hmore]
    exact congrArg _ (List.append_nil _)

end Draft

/-- Expressions in a row report what each of them reports on its own. -/
theorem eventsOf_exprs (s : ScopeStack) (es : List Expr) :
    eventsOf s (es.flatMap fun e => (e.direct : Draft String).acts) =
      es.flatMap (Expr.eventsAlone s) := by
  induction es with
  | nil => rfl
  | cons e rest ih =>
    rw [List.flatMap_cons, List.flatMap_cons, eventsOf_append, (quiet_expr e).2, ih,
      e.eventsAlone_eq]

/-! ### The chain -/

section Chain

variable {first : Expr} {ops : List CmpOperator} {rest conjuncts : List Expr} {l : Loc}

theorem supported_chain (hlength : ops.length = rest.length) (hops : ops ≠ []) :
    Expr.supported ⟨l, .compare first ops rest⟩ = true ↔
      first.supported = true ∧ (∀ op ∈ ops, op.supported = true) ∧
        ∀ e ∈ rest, e.supported = true := by
  rw [Expr.supported_mk]
  simp only [ExprForm.map, ExprForm.supported, List.length_map, hlength, beq_self_eq_true,
    Bool.and_true, Bool.and_eq_true, Bool.not_eq_true', List.isEmpty_eq_false_iff, List.all_eq_true,
    List.all_map, Function.comp_apply, id_eq]
  tauto

/-- A chain that can be rendered renders its operands one after the other, and gives the conjunction
    of what `comparisons` makes of their texts. -/
theorem gives_chain {text : String}
    (h : (Expr.direct ⟨l, .compare first ops rest⟩ : Draft String).Gives text) :
    ∃ left others pairs, (first.direct : Draft String).Gives left ∧
      (all (rest.map Expr.direct) : Draft (List String)).Gives others ∧
      ExprForm.comparisons (left :: others) ops = .ok pairs ∧
      ExprForm.conjunction pairs = text ∧
      (Expr.direct ⟨l, .compare first ops rest⟩ : Draft String).acts =
        (first.direct : Draft String).acts ++ [.compute] ++
          rest.flatMap fun e => (e.direct : Draft String).acts := by
  rw [Expr.direct_mk] at h ⊢
  replace h := Draft.result_of_around h
  show ∃ left others pairs, _ ∧ _ ∧ _ ∧ _ ∧
    (((ExprForm.compare first ops rest).map Expr.direct).direct : Draft String).acts = _
  simp only [ExprForm.map, ExprForm.direct] at h ⊢
  split at h
  · cases h
  · rename_i hshape
    rw [if_neg hshape]
    obtain ⟨left, hleft, h⟩ := Draft.result_of_bind h
    obtain ⟨others, hothers, h⟩ := Draft.result_of_bind h
    obtain ⟨pairs, hpairs, h⟩ := Draft.result_of_bind h
    rw [Draft.bind_of_ok hleft, Draft.bind_of_ok hothers, Draft.bind_of_ok hpairs]
    have hfirst : (first.direct : Draft String).result = .ok left :=
      (Draft.andThen_result _ _).symm.trans hleft
    refine ⟨left, others, pairs, hfirst, hothers, ?_, ?_, ?_⟩
    · cases hc : ExprForm.comparisons (left :: others) ops with
      | error e =>
        rw [hc] at hpairs
        cases hpairs
      | ok _ =>
        rw [hc] at hpairs
        cases hpairs
        rfl
    · cases h
      rfl
    · have hread : (read (first.direct : Draft String)).acts =
          (first.direct : Draft String).acts ++ [.compute] := by
        show (Draft.andThen _ [.compute]).acts = _
        rw [Draft.andThen_of_ok _ hfirst]
      have hgiven : (given (ExprForm.comparisons (left :: others) ops) :
          Draft (List String)).acts = [] := by
        cases ExprForm.comparisons (left :: others) ops <;> rfl
      simp only [hread, hgiven, Draft.acts_all hothers]
      exact congrArg _ (List.append_nil _)

theorem conjunction_of_two_le {pairs : List String} (h : 2 ≤ pairs.length) :
    ExprForm.conjunction pairs = "(" ++ " && ".intercalate pairs ++ ")" := by
  rcases pairs with _ | ⟨a, _ | ⟨b, more⟩⟩
  · exact absurd h (by decide)
  · exact absurd h (by simp)
  · rfl

/-- The comparison of two neighbours gives the pair that `comparisons` makes of their texts. -/
theorem gives_neighbour {right : Expr} {op : CmpOperator} {a b spelling : String}
    (hspell : op.spell = .ok spelling) (ha : (first.direct : Draft String).Gives a)
    (hb : (right.direct : Draft String).Gives b) :
    (Expr.direct ⟨l, .compare first [op] [right]⟩ : Draft String).Gives
      ("(" ++ a ++ " " ++ spelling ++ " " ++ b ++ ")") := by
  have hpairs : ExprForm.comparisons [a, b] [op] =
      .ok ["(" ++ a ++ " " ++ spelling ++ " " ++ b ++ ")"] := by
    rw [ExprForm.comparisons, hspell]
    rfl
  rw [Expr.direct_mk]
  refine Draft.Gives.around ?_ l
  have hothers : (all ([right].map Expr.direct) : Draft (List String)).Gives [b] :=
    hb.bind ((Draft.gives_pure []).bind (Draft.gives_pure [b]))
  refine ha.read.bind (hothers.bind ?_)
  rw [hpairs]
  exact Draft.gives_pure _

theorem comparisons_cons {left right : String} {texts pairs : List String} {op : CmpOperator}
    (h : ExprForm.comparisons (left :: right :: texts) (op :: ops) = .ok pairs) :
    ∃ spelling more, op.spell = .ok spelling ∧
      ExprForm.comparisons (right :: texts) ops = .ok more ∧
      pairs = ("(" ++ left ++ " " ++ spelling ++ " " ++ right ++ ")") :: more := by
  rw [ExprForm.comparisons] at h
  rcases hspell : op.spell with e | spelling
  · rw [hspell] at h
    cases h
  · rcases hmore : ExprForm.comparisons (right :: texts) ops with e | more
    · rw [hspell, hmore] at h
      cases h
    · rw [hspell, hmore] at h
      cases h
      exact ⟨spelling, more, rfl, rfl, rfl⟩

theorem gives_neighbours {left : String} {others pairs : List String}
    (hlength : ops.length = rest.length)
    (hforms : conjuncts.map Expr.form = neighbours first ops rest)
    (hleft : (first.direct : Draft String).Gives left)
    (hothers : (all (rest.map Expr.direct) : Draft (List String)).Gives others)
    (hpairs : ExprForm.comparisons (left :: others) ops = .ok pairs) :
    (all (conjuncts.map Expr.direct) : Draft (List String)).Gives pairs := by
  -- along the operators; the right operand of one comparison is the left one of the next
  induction ops generalizing first rest conjuncts left others pairs with
  | nil =>
    obtain rfl : rest = [] := List.length_eq_zero_iff.mp hlength.symm
    obtain rfl : conjuncts = [] := List.map_eq_nil_iff.mp hforms
    cases hothers
    cases hpairs
    exact Draft.gives_pure []
  | cons op ops ih =>
    obtain ⟨right, rest, rfl⟩ := List.exists_cons_of_length_eq_add_one hlength.symm
    obtain ⟨⟨loc, form⟩, conjuncts, rfl, rfl, hmap⟩ := List.map_eq_cons_iff.mp hforms
    obtain ⟨b, hb, hothers⟩ := Draft.result_of_bind hothers
    obtain ⟨texts, htexts, hothers⟩ := Draft.result_of_bind hothers
    cases hothers
    obtain ⟨spelling, more, hspell, hmore, rfl⟩ := comparisons_cons hpairs
    have hhead := gives_neighbour (l := loc) hspell hleft hb
    have htail := ih (Nat.succ.inj hlength) hmap hb htexts hmore
    exact hhead.bind (htail.bind (Draft.gives_pure _))

theorem length_neighbours (hlength : ops.length = rest.length) :
    (neighbours first ops rest).length = ops.length := by
  induction ops generalizing first rest with
  | nil => simp [neighbours]
  | cons op ops ih =>
    obtain ⟨right, rest, rfl⟩ := List.exists_cons_of_length_eq_add_one hlength.symm
    exact congrArg Nat.succ (ih (Nat.succ.inj hlength))

/-- The conjuncts ask for the operands and operators that the chain asks for. -/
theorem supported_neighbours (hlength : ops.length = rest.length) (hops : ops ≠ [])
    (hforms : conjuncts.map Expr.form = neighbours first ops rest) :
    (∀ e ∈ conjuncts, e.supported = true) ↔
      first.supported = true ∧ (∀ op ∈ ops, op.supported = true) ∧
        ∀ e ∈ rest, e.supported = true := by
  induction ops generalizing first rest conjuncts with
  | nil => exact absurd rfl hops
  | cons op ops ih =>
    obtain ⟨right, rest, rfl⟩ := List.exists_cons_of_length_eq_add_one hlength.symm
    obtain ⟨⟨loc, form⟩, conjuncts, rfl, rfl, hmap⟩ := List.map_eq_cons_iff.mp hforms
    have hhead : Expr.supported ⟨loc, .compare first [op] [right]⟩ = true ↔ _ :=
      supported_chain rfl (List.cons_ne_nil _ _)
    simp only [List.forall_mem_cons, hhead]
    by_cases hmore : ops = []
    · subst hmore
      obtain rfl : rest = [] := List.length_eq_zero_iff.mp (Nat.succ.inj hlength).symm
      obtain rfl : conjuncts = [] := List.map_eq_nil_iff.mp hmap
      simp
    · rw [ih (Nat.succ.inj hlength) hmore hmap]
      simp only [List.not_mem_nil, false_implies, implies_true, and_true]
      tauto

/-- The conjuncts read what the operands read, those in the middle twice, and a field each. -/
theorem fieldsRead_neighbours (hlength : ops.length = rest.length) (hops : ops ≠ [])
    (hforms : conjuncts.map Expr.form = neighbours first ops rest) :
    (conjuncts.map Expr.fieldsRead).sum =
      ((first :: rest).map Expr.fieldsRead).sum + (rest.dropLast.map Expr.fieldsRead).sum +
        ops.length := by
  induction ops generalizing first rest conjuncts with
  | nil => exact absurd rfl hops
  | cons op ops ih =>
    obtain ⟨right, rest, rfl⟩ := List.exists_cons_of_length_eq_add_one hlength.symm
    obtain ⟨⟨loc, form⟩, conjuncts, rfl, rfl, hmap⟩ := List.map_eq_cons_iff.mp hforms
    have hhead : Expr.fieldsRead ⟨loc, .compare first [op] [right]⟩ =
        1 + (first.fieldsRead + right.fieldsRead) := by
      rw [Expr.fieldsRead_mk]
      simp [ExprForm.map, ExprForm.fieldsRead, ExprForm.reached, ExprForm.children]
    by_cases hmore : ops = []
    · subst hmore
      obtain rfl : rest = [] := List.length_eq_zero_iff.mp (Nat.succ.inj hlength).symm
      obtain rfl : conjuncts = [] := List.map_eq_nil_iff.mp hmap
      simp [hhead]
      omega
    · have hrest : rest ≠ [] := by
        rintro rfl
        exact hmore (List.length_eq_zero_iff.mp (Nat.succ.inj hlength))
      have htail := ih (Nat.succ.inj hlength) hmore hmap
      rw [List.dropLast_cons_of_ne_nil hrest]
      simp only [List.map_cons, List.sum_cons, List.length_cons] at htail ⊢
      omega

end Chain

/-- **A chain of comparisons is a conjunction.**  A chain with two operators or more can be rendered
    if and only if the conjunction of the comparisons between its neighbours can, and to the same
    text.  The chain renders each operand once: it reports what they report on their own, and it
    stores one text besides theirs.  The conjunction stores the texts of those in the middle again,
    for they are other nodes there. -/
theorem renderExpr_chain (keyOf : Place → κ) (keyOf' : Place → κ') (r : Renderer κ)
    (r' : Renderer κ') (l l' : Loc) (first : Expr) (ops : List CmpOperator)
    (rest conjuncts : List Expr) (hlength : ops.length = rest.length) (hlong : 2 ≤ ops.length)
    (hforms : conjuncts.map Expr.form = neighbours first ops rest)
    (hkeys : Set.InjOn keyOf (Expr.nodes ⟨l, .compare first ops rest⟩ []))
    (hkeys' : Set.InjOn keyOf' (Expr.nodes ⟨l', .boolOp .and conjuncts⟩ [])) :
    let chain := Renderer.renderExpr keyOf ⟨l, .compare first ops rest⟩ r
    let conj := Renderer.renderExpr keyOf' ⟨l', .boolOp .and conjuncts⟩ r'
    ((∃ text, chain.result = .ok text) ↔ ∃ text, conj.result = .ok text) ∧
    ∀ text, chain.result = .ok text →
      conj.result = .ok text ∧
      chain.events = (first :: rest).flatMap (Expr.eventsAlone r.scopes) ∧
      chain.renderer.stats = ⟨((first :: rest).map Expr.storedAlone).sum + 1, 0⟩ ∧
      conj.renderer.stats = ⟨((first :: rest).map Expr.storedAlone).sum +
        (rest.dropLast.map Expr.storedAlone).sum + ops.length, 0⟩ := by
  intro chain conj
  have hops : ops ≠ [] := by
    rintro rfl
    exact absurd hlong (by decide)
  have hconj : Expr.supported ⟨l', .boolOp .and conjuncts⟩ = true ↔
      ∀ e ∈ conjuncts, e.supported = true := by
    rw [Expr.supported_mk]
    simp [ExprForm.map, ExprForm.supported]
  have hsame : Expr.supported ⟨l, .compare first ops rest⟩ = true ↔
      Expr.supported ⟨l', .boolOp .and conjuncts⟩ = true := by
    rw [hconj, supported_neighbours hlength hops hforms, supported_chain hlength hops]
  have hchain := renderExpr_ok_iff keyOf hkeys r
  refine ⟨?_, ?_⟩
  · rw [hchain, renderExpr_ok_iff keyOf' hkeys' r', hsame]
  · intro text htext
    have hsupported := hchain.mp ⟨text, htext⟩
    obtain ⟨hfirst, -, hrest⟩ := (supported_chain hlength hops).mp hsupported
    rw [renderExpr_result keyOf hkeys r] at htext
    obtain ⟨left, others, pairs, hleft, hothers, hpairs, rfl, hacts⟩ := gives_chain htext
    have hstored : ∀ es : List Expr, (∀ e ∈ es, e.supported = true) →
        es.map Expr.storedAlone = es.map Expr.fieldsRead := by
      intro es hes
      exact List.map_congr_left fun e he => Expr.storedAlone_eq (hes e he)
    have hoperands := hstored (first :: rest) (List.forall_mem_cons.mpr ⟨hfirst, hrest⟩)
    have hmiddle := hstored rest.dropLast fun e he => hrest e ((List.dropLast_sublist rest).subset he)
    refine ⟨?_, ?_, ?_, ?_⟩
    · have hall := gives_neighbours hlength hforms hleft hothers hpairs
      have hcount : pairs.length = ops.length := by
        rw [Draft.length_of_all hall, List.length_map, ← List.length_map (f := Expr.form), hforms,
          length_neighbours hlength]
      rw [renderExpr_result keyOf' hkeys' r', Expr.direct_mk,
        conjunction_of_two_le (hcount.symm ▸ hlong)]
      have hjoined : (ExprForm.direct (.boolOp .and (conjuncts.map Expr.direct)) :
          Draft String).Gives ("(" ++ " && ".intercalate pairs ++ ")") :=
        hall.bind (Draft.gives_pure _)
      exact hjoined.around l'
    · have hcompute : eventsOf r.scopes [.compute] = [] := rfl
      rw [(renderExpr_performs keyOf hkeys r).1, hacts, List.append_assoc, eventsOf_append,
        (quiet_expr first).2, eventsOf_append, hcompute, List.nil_append, List.flatMap_cons,
        first.eventsAlone_eq, ← eventsOf_exprs]
      rfl
    · rw [renderExpr_counts keyOf hkeys r hsupported, hoperands, Expr.fieldsRead_mk]
      simp [ExprForm.map, ExprForm.fieldsRead, ExprForm.reached, ExprForm.children, Nat.add_comm]
    · rw [renderExpr_counts keyOf' hkeys' r' (hsame.mp hsupported), hoperands, hmiddle,
        Expr.fieldsRead_mk, ← fieldsRead_neighbours hlength hops hforms]
      simp [ExprForm.map, ExprForm.fieldsRead, ExprForm.reached, ExprForm.children]

/-- `null < (x => x) === y` -/
def lambdaChain : Expr :=
  ⟨.synthetic, .compare ⟨.synthetic, .constant .null⟩ [.lt, .eq]
    [⟨.synthetic, .lambda ⟨.synthetic, [], [⟨.synthetic, "x"⟩], none, [], none, []⟩
      ⟨.synthetic, .name "x"⟩⟩, ⟨.synthetic, .name "y"⟩]⟩

/-- `null < (x => x) && (x => x) === y` -/
def lambdaConjunction : Expr :=
  ⟨.synthetic, .boolOp .and
    [⟨.synthetic, .compare ⟨.synthetic, .constant .null⟩ [.lt]
      [⟨.synthetic, .lambda ⟨.synthetic, [], [⟨.synthetic, "x"⟩], none, [], none, []⟩
        ⟨.synthetic, .name "x"⟩⟩]⟩,
    ⟨.synthetic, .compare
      ⟨.synthetic, .lambda ⟨.synthetic, [], [⟨.synthetic, "x"⟩], none, [], none, []⟩
        ⟨.synthetic, .name "x"⟩⟩ [.eq] [⟨.synthetic, .name "y"⟩]⟩]⟩

theorem renderExpr_chain_lambdaChain :
    Set.InjOn id (lambdaChain.nodes []) ∧ Set.InjOn id (lambdaConjunction.nodes []) ∧
    (Renderer.renderExpr id lambdaConjunction Renderer.new).result =
      .ok "((null < ((x) => (x))) && (((x) => (x)) === y))" ∧
    (Renderer.renderExpr id lambdaChain Renderer.new).renderer.stats = ⟨4, 0⟩ ∧
    (Renderer.renderExpr id lambdaConjunction Renderer.new).renderer.stats = ⟨7, 0⟩ := by
  have hkeys : Set.InjOn id (lambdaChain.nodes []) := Set.injOn_id _
  have hkeys' : Set.InjOn id (lambdaConjunction.nodes []) := Set.injOn_id _
  have htext : (Renderer.renderExpr id lambdaChain Renderer.new).result =
      .ok "((null < ((x) => (x))) && (((x) => (x)) === y))" := rfl
  obtain ⟨-, hsame⟩ := renderExpr_chain id id Renderer.new Renderer.new .synthetic .synthetic _ _ _ _
    rfl (le_refl 2) rfl hkeys hkeys'
  obtain ⟨hconj, -, hstats, hstats'⟩ := hsame _ htext
  exact ⟨hkeys, hkeys', hconj, hstats, hstats'⟩

end ScriptTree
