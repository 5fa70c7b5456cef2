/-
  ScriptTree/Proofs/VarPlacement.lean
  ===================================
  **Where `var` stands.**  The assignments that rendering makes are the occurrences of the tree, in
  order, as far as it gets (`places_stmt`, by induction on the statement).  An occurrence gets `var`
  exactly when it `Declares`, which is said about the tree and not about scopes.

  The induction runs over drafts.  Its statement holds for any occurrences before and any scopes that
  tell what is known.  The places of bodies are what keeps it going: a body about to be entered must
  be new, so each statement is given a region of places that no earlier body lies in.
-/
import ScriptTree.Proofs.Occurrences
import ScriptTree.Proofs.ScopeDiscipline

namespace ScriptTree

open Rendition

variable {α β : Type}

/-! ### Drafts without assignments -/

/-- A draft that assigns to nothing and leaves the scopes as they were. -/
def Quiet (d : Draft α) : Prop := assigned d.acts = [] ∧ ∀ s, scopesAfter s d.acts = s

theorem Quiet.no_assignments {d : Draft α} (h : Quiet d) (s : ScopeStack) :
    assignments (eventsOf s d.acts) = [] := by
  have hnames := assignments_eventsOf s d.acts
  rw [h.1] at hnames
  exact List.map_eq_nil_iff.mp hnames

theorem quiet_of_follows {S : Set Slot} {m : Render Place α} {d : Draft α}
    (hfollows : FollowsExpr id Set.univ S m d) (hkeeps : KeepsScopes m) : Quiet d := by
  refine ⟨hfollows.2, fun s => ?_⟩
  obtain ⟨-, htracks⟩ := hfollows.1 (Renderer.withScopes s) fresh_empty
  have hscopes := (hkeeps (Renderer.withScopes s)).1
  rw [htracks.scopes] at hscopes
  exact hscopes

theorem quiet_expr (e : Expr) : Quiet (e.direct : Draft String) :=
  quiet_of_follows
    ((drafting id Set.univ (Set.injOn_id _)).render_expr e [] (Set.subset_univ _))
    (keepsScopes_expr id e [])

theorem quiet_params (params : Params Expr) :
    Quiet ((params.map Expr.direct).direct : Draft String) :=
  quiet_of_follows
    ((drafting id Set.univ (Set.injOn_id _)).expr_params (p := []) fun _ e _ =>
      (drafting id Set.univ (Set.injOn_id _)).render_expr e _ (Set.subset_univ _))
    ((scopeDiscipline id).expr_params fun _ e _ => keepsScopes_expr id e _)

theorem quiet_pure (a : α) : Quiet (pure a : Draft α) := ⟨rfl, fun _ => rfl⟩

theorem quiet_given (x : Except RenderError α) : Quiet (given x : Draft α) := by
  cases x with
  | error e => exact ⟨rfl, fun _ => rfl⟩
  | ok a => exact ⟨rfl, fun _ => rfl⟩

theorem Quiet.bind {d : Draft α} {f : α → Draft β} (hd : Quiet d) (hf : ∀ a, Quiet (f a)) :
    Quiet (d >>= f) := by
  cases hresult : d.result with
  | error e =>
    rw [Draft.bind_of_error hresult]
    exact hd
  | ok a =>
    rw [Draft.bind_of_ok hresult]
    refine ⟨?_, fun s => ?_⟩
    · rw [assigned_append, hd.1, (hf a).1]
      rfl
    · rw [scopesAfter_append, hd.2, (hf a).2]

theorem Quiet.andThen {d : Draft α} {acts : List Act} (hd : Quiet d) (hnone : assigned acts = [])
    (hstay : ∀ s, scopesAfter s acts = s) : Quiet (d.andThen acts) := by
  cases hresult : d.result with
  | error e =>
    rw [Draft.andThen_of_error _ hresult]
    exact hd
  | ok a =>
    rw [Draft.andThen_of_ok _ hresult]
    refine ⟨?_, fun s => ?_⟩
    · rw [assigned_append, hd.1, hnone]
      rfl
    · rw [scopesAfter_append, hd.2, hstay]

theorem Quiet.read {d : Draft α} (hd : Quiet d) : Quiet (Rendition.read d) :=
  hd.andThen rfl fun _ => rfl

theorem Quiet.readTwice {d : Draft String} (hd : Quiet d) : Quiet (Rendition.readTwice d) := by
  have hquiet : Quiet (d.andThen [.compute, .reuse]) := hd.andThen rfl fun _ => rfl
  exact hquiet

theorem quiet_all (es : List Expr) : Quiet (all (es.map Expr.direct) : Draft (List String)) := by
  induction es with
  | nil => exact quiet_pure []
  | cons e rest ih => exact (quiet_expr e).bind fun text => ih.bind fun texts => quiet_pure _

theorem quiet_optional (e : Option Expr) : Quiet (optional (e.map Expr.direct) : Draft String) := by
  cases e with
  | none => exact quiet_pure _
  | some e => exact quiet_expr e

/-! ### Drafts that place occurrences -/

def Expr.text (e : Expr) : Except RenderError String :=
  (Renderer.renderExpr (id : Place → Place) e Renderer.new).result

theorem Expr.text_eq_draft (e : Expr) : e.text = (e.direct : Draft String).result :=
  renderExpr_result id (Set.injOn_id _) Renderer.new

section Placing

variable (declared : List String)

/-- What became of a draft that is carried out after some occurrences: it got through `seen`, the
    first of its own occurrences, or all of them if it did not fail. -/
structure Placed (bodies : List Body) (before : List Emitted) (s : ScopeStack) (d : Draft Sketch)
    (occs : List Occurrence) (seen : List Emitted) : Prop where
  sofar : seen.map Emitted.occurrence <+: occs
  done : ∀ sketch, d.result = .ok sketch → seen.map Emitted.occurrence = occs ∧
    sketch.entries = seen.map fun x => (x.text, x.value)
  texts : ∀ x ∈ seen, x.occurrence.target.text = .ok x.text ∧ x.occurrence.value.text = .ok x.value
  flags : assignments (eventsOf s d.acts) = placement declared before seen
  tells : Tells declared bodies (before ++ seen) (scopesAfter s d.acts)

/-- No body so far is at one of the places. -/
def Clear (R : Set Place) (bodies : List Body) (before : List Emitted) : Prop :=
  (∀ b ∈ bodies, b.place ∉ R) ∧ ∀ y ∈ before, ∀ b ∈ y.occurrence.bodies, b.place ∉ R

/-- A draft whose assignments are the given occurrences.  The bodies it opens are at the places of
    `R`. -/
def Places (R : Set Place) (bodies : List Body) (d : Draft Sketch) (occs : List Occurrence) : Prop :=
  ∀ before s, Tells declared bodies before s → Clear R bodies before →
    ∃ seen, Placed declared bodies before s d occs seen

variable {declared} {R R' : Set Place} {bodies : List Body} {d e : Draft Sketch}
  {occs occs' : List Occurrence}

theorem Clear.mono {before : List Emitted} (hR : R ⊆ R') (h : Clear R' bodies before) :
    Clear R bodies before :=
  ⟨fun b hb hmem => h.1 b hb (hR hmem), fun y hy b hb hmem => h.2 y hy b hb (hR hmem)⟩

theorem Places.mono (hR : R ⊆ R') (h : Places declared R bodies d occs) :
    Places declared R' bodies d occs :=
  fun before s htells hclear => h before s htells (hclear.mono hR)

theorem placed_nothing {before : List Emitted} {s : ScopeStack} (htells : Tells declared bodies before s)
    (hresult : ∀ sketch, d.result = .ok sketch → occs = [] ∧ sketch.entries = [])
    (hflags : assignments (eventsOf s d.acts) = []) (hscopes : scopesAfter s d.acts = s) :
    Placed declared bodies before s d occs [] where
  sofar := List.nil_prefix
  done := fun sketch hsketch => ⟨(hresult sketch hsketch).1.symm, (hresult sketch hsketch).2⟩
  texts := fun _ hx => absurd hx List.not_mem_nil
  flags := hflags
  tells := by rwa [List.append_nil, hscopes]

theorem places_fail (err : RenderError) : Places declared R bodies (fail err) occs := by
  intro before s htells _
  refine ⟨[], placed_nothing htells ?_ rfl rfl⟩
  rintro sketch ⟨⟩

theorem places_text (t : String) : Places declared R bodies (text t) [] := by
  intro before s htells _
  refine ⟨[], placed_nothing htells ?_ rfl rfl⟩
  rintro sketch ⟨⟩
  exact ⟨rfl, rfl⟩

theorem Places.bind {d : Draft α} {f : α → Draft Sketch} (hd : Quiet d)
    (hf : ∀ a, d.result = .ok a → Places declared R bodies (f a) occs) :
    Places declared R bodies (d >>= f) occs := by
  intro before s htells hclear
  cases hresult : d.result with
  | error err =>
    rw [Draft.bind_of_error hresult]
    refine ⟨[], placed_nothing htells ?_ (hd.no_assignments s) (hd.2 s)⟩
    rintro sketch ⟨⟩
  | ok a =>
    rw [Draft.bind_of_ok hresult]
    obtain ⟨seen, hseen⟩ := hf a hresult before s htells hclear
    refine ⟨seen, hseen.sofar, hseen.done, hseen.texts, ?_, ?_⟩
    · rw [eventsOf_append, assignments_append, hd.no_assignments, hd.2, List.nil_append]
      exact hseen.flags
    · rw [scopesAfter_append, hd.2]
      exact hseen.tells

/-- One draft after the other.  The second one opens no body that the first one opened. -/
theorem Places.both (hd : Places declared R bodies d occs) (he : Places declared R' bodies e occs')
    (hapart : ∀ o ∈ occs, ∀ b ∈ o.bodies, b ∈ bodies ∨ b.place ∉ R') :
    Places declared (R ∪ R') bodies (both d e) (occs ++ occs') := by
  intro before s htells hclear
  show ∃ seen, Placed declared bodies before s (d >>= fun a => e >>= fun b => pure (a ++ b)) _ seen
  obtain ⟨seen, hseen⟩ := hd before s htells (hclear.mono Set.subset_union_left)
  cases hresult : d.result with
  | error err =>
    rw [Draft.bind_of_error hresult]
    refine ⟨seen, hseen.sofar.trans (List.prefix_append _ _), ?_, hseen.texts, hseen.flags,
      hseen.tells⟩
    rintro sketch ⟨⟩
  | ok a =>
    obtain ⟨hall, hentries⟩ := hseen.done a hresult
    -- bodies of the first draft lie around both, or in a region the second one keeps out of
    have hclear' : Clear R' bodies (before ++ seen) := by
      have hright := hclear.mono (Set.subset_union_right (s := R))
      refine ⟨hright.1, fun y hy b hb => ?_⟩
      rcases List.mem_append.mp hy with hy | hy
      · exact hright.2 y hy b hb
      · have hmem : y.occurrence ∈ occs := hall ▸ List.mem_map_of_mem hy
        rcases hapart _ hmem b hb with hin | hout
        · exact hright.1 b hin
        · exact hout
    obtain ⟨seen', hseen'⟩ := he (before ++ seen) _ hseen.tells hclear'
    rw [Draft.bind_of_ok hresult]
    have hacts : (e >>= fun b => (pure (a ++ b) : Draft Sketch)).acts = e.acts := by
      cases he' : e.result with
      | error err => rw [Draft.bind_of_error he']
      | ok b =>
        rw [Draft.bind_of_ok he']
        exact List.append_nil _
    rw [hacts]
    refine ⟨seen ++ seen', ?_, ?_, ?_, ?_, ?_⟩
    · rw [List.map_append, hall]
      exact (List.prefix_append_right_inj occs).mpr hseen'.sofar
    · intro sketch hsketch
      obtain ⟨b, he', hsketch⟩ := Draft.result_of_bind hsketch
      cases hsketch
      obtain ⟨hall', hentries'⟩ := hseen'.done b he'
      rw [List.map_append, hall, hall', Sketch.entries_append, hentries, hentries', List.map_append]
      exact ⟨rfl, rfl⟩
    · intro x hx
      rcases List.mem_append.mp hx with hx | hx
      · exact hseen.texts x hx
      · exact hseen'.texts x hx
    · rw [eventsOf_append, assignments_append, hseen.flags, hseen'.flags, placement_append]
    · rw [scopesAfter_append, ← List.append_assoc]
      exact hseen'.tells

theorem Places.around (l : Loc) (h : Places declared R bodies d occs) :
    Places declared R bodies (Rendition.around l d) occs := by
  intro before s htells hclear
  obtain ⟨seen, hseen⟩ := h before s htells hclear
  refine ⟨seen, hseen.sofar, ?_, hseen.texts, hseen.flags, hseen.tells⟩
  intro sketch hsketch
  exact hseen.done sketch (Draft.result_of_around hsketch)

theorem Places.read (h : Places declared R bodies d occs) :
    Places declared R bodies (Rendition.read d) occs := by
  intro before s htells hclear
  obtain ⟨seen, hseen⟩ := h before s htells hclear
  show ∃ seen, Placed declared bodies before s (d.andThen [.compute]) occs seen
  cases hresult : d.result with
  | error err =>
    rw [Draft.andThen_of_error _ hresult]
    exact ⟨seen, hseen⟩
  | ok a =>
    rw [Draft.andThen_of_ok _ hresult]
    refine ⟨seen, hseen.sofar, hseen.done, hseen.texts, ?_, ?_⟩
    · rw [eventsOf_append, assignments_append, hseen.flags]
      exact List.append_nil _
    · rw [scopesAfter_append]
      exact hseen.tells

theorem Places.wrap (a b : String) (h : Places declared R bodies d occs) :
    Places declared R bodies (Rendition.wrap a d b) occs := by
  have hfirst := (places_text (R := ∅) a).both h (by simp)
  have hboth := hfirst.both (places_text (R := ∅) b) fun _ _ _ _ => Or.inr (Set.notMem_empty _)
  rw [Set.empty_union, Set.union_empty, List.nil_append, List.append_nil] at hboth
  exact hboth

/-- A body of its own, at a place where no body was before. -/
theorem Places.inScope (b : Body) (h : Places declared R (b :: bodies) d occs) (hR : R ⊆ R')
    (hb : b.place ∈ R') (hnot : b.place ∉ R) :
    Places declared R' bodies (Rendition.inScope b.names d) occs := by
  intro before s htells hclear
  have hfresh : ∀ y ∈ before, y.occurrence.bodies ≠ b :: bodies := by
    intro y hy heq
    exact hclear.2 y hy b (heq ▸ List.mem_cons_self) hb
  have hclear' : Clear R (b :: bodies) before := by
    refine ⟨fun c hc => ?_, (hclear.mono hR).2⟩
    rcases List.mem_cons.mp hc with rfl | hc
    · exact hnot
    · exact (hclear.mono hR).1 c hc
  obtain ⟨seen, hseen⟩ := h before _ (htells.enter b hfresh) hclear'
  refine ⟨seen, hseen.sofar, hseen.done, hseen.texts, ?_, ?_⟩
  · show assignments (eventsOf s (.enter b.names :: d.acts ++ [.leave])) = _
    have hleave : ∀ t, assignments (eventsOf t [.leave]) = [] := fun t =>
      List.map_eq_nil_iff.mp (assignments_eventsOf t [.leave])
    rw [eventsOf_append, assignments_append, hleave, List.append_nil]
    exact hseen.flags
  · show Tells declared bodies _ (scopesAfter s (.enter b.names :: d.acts ++ [.leave]))
    rw [scopesAfter_append]
    exact hseen.tells.leave

theorem places_assign {target value : Expr} {name v : String} (htarget : target.text = .ok name)
    (hvalue : value.text = .ok v) :
    Places declared R bodies (Rendition.assign name v) [⟨bodies, target, value⟩] := by
  intro before s htells _
  let x : Emitted := ⟨⟨bodies, target, value⟩, name, v⟩
  refine ⟨[x], List.prefix_refl _, ?_, ?_, ?_, htells.assign (x := x) rfl⟩
  · rintro sketch ⟨⟩
    exact ⟨rfl, rfl⟩
  · intro y hy
    obtain rfl : y = x := List.mem_singleton.mp hy
    exact ⟨htarget, hvalue⟩
  · show [(name, Act.gives s name)] = [(name, decide (Declares declared before x))]
    rw [htells.gives_eq (x := x) rfl]

/-- Drafts in regions that do not meet, one after the other. -/
theorem Places.lines {ds : List (Draft Sketch)} {oss : List (List Occurrence)} (R : Nat → Set Place)
    (hdisjoint : ∀ i j, i ≠ j → Disjoint (R i) (R j)) (hlength : ds.length = oss.length)
    (h : ∀ (i : Nat) d occs, ds[i]? = some d → oss[i]? = some occs →
      Places declared (R i) bodies d occs)
    (hinside : ∀ (i : Nat) occs, oss[i]? = some occs → ∀ o ∈ occs, ∀ b ∈ o.bodies,
      b ∈ bodies ∨ b.place ∈ R i) :
    Places declared (⋃ i, R i) bodies (Rendition.lines ds) oss.flatten := by
  induction ds generalizing oss R with
  | nil =>
    obtain rfl : oss = [] := List.length_eq_zero_iff.mp hlength.symm
    exact places_text ""
  | cons d rest ih =>
    obtain ⟨occs, oss, rfl⟩ : ∃ occs oss', oss = occs :: oss' :=
      List.exists_cons_of_length_eq_add_one hlength.symm
    have hfirst : Places declared (R 0) bodies d occs := h 0 d occs rfl rfl
    cases rest with
    | nil =>
      obtain rfl : oss = [] := List.length_eq_zero_iff.mp (Nat.succ.inj hlength).symm
      rw [List.flatten_singleton]
      exact hfirst.mono (Set.subset_iUnion R 0)
    | cons next rest =>
      have hrest : Places declared (⋃ i, R (i + 1)) bodies (Rendition.lines (next :: rest))
          oss.flatten := by
        refine ih (fun i => R (i + 1)) (fun i j hij => hdisjoint _ _ (by omega))
          (Nat.succ.inj hlength) ?_ ?_
        · intro i d' occs' hd' hoccs'
          exact h (i + 1) d' occs' hd' hoccs'
        · intro i occs' hoccs'
          exact hinside (i + 1) occs' hoccs'
      refine Places.mono ?_ ((hfirst.wrap "" ";\n").both hrest ?_)
      · refine Set.union_subset (Set.subset_iUnion R 0) ?_
        exact Set.iUnion_subset fun i => Set.subset_iUnion R (i + 1)
      · intro o ho b hb
        rcases hinside 0 occs rfl o ho b hb with hin | hout
        · exact Or.inl hin
        · refine Or.inr fun hmem => ?_
          obtain ⟨i, hi⟩ := Set.mem_iUnion.mp hmem
          exact Set.disjoint_left.mp (hdisjoint 0 (i + 1) (by omega)) hout hi

end Placing

/-! ### Trees -/

def within (p : Place) : Set Place := {q | p <:+ q}

theorem within_step_subset (s : Step) (p : Place) : within (s :: p) ⊆ within p :=
  fun _ hq => (List.suffix_cons s p).trans hq

theorem within_disjoint {s s' : Step} (p : Place) (h : s ≠ s') :
    Disjoint (within (s :: p)) (within (s' :: p)) :=
  Set.disjoint_left.mpr fun _ hq hq' => h (step_unique hq hq')

def withinField (p : Place) (f : Field) : Set Place := ⋃ i, within (.field f i :: p)

theorem withinField_subset (p : Place) (f : Field) : withinField p f ⊆ within p :=
  Set.iUnion_subset fun _ => within_step_subset _ p

theorem own_not_mem_withinField (p : Place) (f : Field) : p ∉ withinField p f := by
  intro hmem
  obtain ⟨i, hi⟩ := Set.mem_iUnion.mp hmem
  exact not_step_suffix_self _ p hi

theorem withinField_disjoint (p : Place) {f g : Field} (h : f ≠ g) :
    Disjoint (withinField p f) (withinField p g) := by
  refine Set.disjoint_iUnion_left.mpr fun i => Set.disjoint_iUnion_right.mpr fun j => ?_
  exact within_disjoint p fun heq => h (Step.field.inj heq).1

/-- The bodies of an occurrence are those around the statement, or lie inside of it. -/
def Inside (R : Set Place) (bodies : List Body) (occs : List Occurrence) : Prop :=
  ∀ o ∈ occs, ∀ b ∈ o.bodies, b ∈ bodies ∨ b.place ∈ R

theorem inside_occurrencesIn {p : Place} {f : Field} {ss : List Stmt} {bodies : List Body}
    (h : ∀ s ∈ ss, ∀ p bodies, Inside (within p) bodies (s.occurrences p bodies)) :
    Inside (withinField p f) bodies (occurrencesIn p f (ss.map Stmt.occurrences) bodies) := by
  intro o ho b hb
  simp only [occurrencesIn, List.mem_flatten, List.mem_mapIdx] at ho
  obtain ⟨_, ⟨i, hi, rfl⟩, ho⟩ := ho
  rw [List.getElem_map] at ho
  rw [List.length_map] at hi
  rcases h _ (List.getElem_mem hi) _ _ o ho b hb with hin | hout
  · exact Or.inl hin
  · exact Or.inr (Set.mem_iUnion.mpr ⟨i, hout⟩)

theorem Inside.mono {R R' : Set Place} {bodies : List Body} {occs : List Occurrence} (hR : R ⊆ R')
    (h : Inside R bodies occs) : Inside R' bodies occs :=
  fun o ho b hb => (h o ho b hb).imp_right fun hmem => hR hmem

theorem Inside.body {p : Place} {b : Body} {bodies : List Body} {occs : List Occurrence}
    (hb : b.place ∈ within p) (h : Inside (within p) (b :: bodies) occs) :
    Inside (within p) bodies occs := by
  intro o ho c hc
  rcases h o ho c hc with hin | hout
  · rcases List.mem_cons.mp hin with rfl | hin
    · exact Or.inr hb
    · exact Or.inl hin
  · exact Or.inr hout

theorem Stmt.inside_occurrences (s : Stmt) :
    ∀ p bodies, Inside (within p) bodies (s.occurrences p bodies) := by
  induction s with
  | mk l form ih =>
    intro p bodies
    have hblock : ∀ (f : Field) (ss : List Stmt), (∀ c ∈ ss, c ∈ form.children) → ∀ bodies,
        Inside (within p) bodies (occurrencesIn p f (ss.map Stmt.occurrences) bodies) := by
      intro f ss hss bodies
      have hfield : Inside (withinField p f) bodies _ :=
        inside_occurrencesIn fun c hc => ih c (hss c hc)
      exact hfield.mono (withinField_subset p f)
    have hnone : Inside (within p) bodies [] := fun _ ho => absurd ho List.not_mem_nil
    rw [Stmt.occurrences_mk]
    cases form with
    | functionDef name params body decorators =>
      have hbody := hblock .body body (fun c hc => hc) (⟨p, params.boundNames⟩ :: bodies)
      exact Inside.body (b := ⟨p, params.boundNames⟩) (List.suffix_refl p) hbody
    | assign targets value =>
      intro o ho b hb
      obtain ⟨target, -, rfl⟩ := List.mem_map.mp ho
      exact Or.inl hb
    | forLoop target iter body orelse =>
      have hbody := hblock .body body fun c hc => List.mem_append_left _ hc
      obtain ⟨loc, form⟩ := target
      cases form with
      | name id => exact Inside.body (b := ⟨p, [id]⟩) (List.suffix_refl p) (hbody _)
      | _ => exact hnone
    | whileLoop test body orelse =>
      exact hblock .body body (fun c hc => List.mem_append_left _ hc) bodies
    | cond test body orelse =>
      have hbody := hblock .body body (fun c hc => List.mem_append_left _ hc) bodies
      have horelse := hblock .orelse orelse (fun c hc => List.mem_append_right _ hc) bodies
      intro o ho
      rcases List.mem_append.mp ho with ho | ho
      · exact hbody o ho
      · exact horelse o ho
    | _ => exact hnone

section Trees

variable {declared : List String}

theorem places_block {p : Place} {f : Field} {ss : List Stmt} (bodies : List Body)
    (h : ∀ s ∈ ss, ∀ p bodies, Places declared (within p) bodies s.direct (s.occurrences p bodies)) :
    Places declared (withinField p f) bodies (lines (ss.map Stmt.direct))
      (occurrencesIn p f (ss.map Stmt.occurrences) bodies) := by
  refine Places.lines (fun i => within (.field f i :: p)) ?_ (by simp) ?_ ?_
  · intro i j hij
    exact within_disjoint p fun heq => hij (Step.field.inj heq).2
  · intro i d occs hd hoccs
    simp only [List.getElem?_mapIdx, List.getElem?_map, Option.map_map,
      Option.map_eq_some_iff] at hd hoccs
    obtain ⟨s, hs, rfl⟩ := hd
    obtain ⟨s', hs', rfl⟩ := hoccs
    obtain rfl : s = s' := Option.some.inj (hs.symm.trans hs')
    exact h s (List.mem_of_getElem? hs) _ _
  · intro i occs hoccs
    simp only [List.getElem?_mapIdx, List.getElem?_map, Option.map_map,
      Option.map_eq_some_iff] at hoccs
    obtain ⟨s, hs, rfl⟩ := hoccs
    exact s.inside_occurrences _ _

/-- The targets of an assignment, each of which is rendered before it is assigned to. -/
theorem places_targets {R : Set Place} {bodies : List Body} (targets : List Expr) {value : Expr}
    {v : String} (hvalue : value.text = .ok v) :
    Places declared R bodies
      (lines (targets.map fun target => do
        let name ← target.direct
        Rendition.assign name v))
      (targets.map fun target => ⟨bodies, target, value⟩) := by
  have hflat : (targets.map fun target => [(⟨bodies, target, value⟩ : Occurrence)]).flatten =
      targets.map fun target => ⟨bodies, target, value⟩ := by
    induction targets with
    | nil => rfl
    | cons target rest ih => simp [ih]
  rw [← hflat]
  refine Places.mono (Set.iUnion_subset fun _ => Set.empty_subset R)
    (Places.lines (fun _ => ∅) (fun _ _ _ => Set.disjoint_empty _) (by simp) ?_ ?_)
  · intro i d occs hd hoccs
    simp only [List.getElem?_map, Option.map_eq_some_iff] at hd hoccs
    obtain ⟨target, htarget, rfl⟩ := hd
    obtain ⟨target', htarget', rfl⟩ := hoccs
    obtain rfl : target = target' := Option.some.inj (htarget.symm.trans htarget')
    refine Places.bind (quiet_expr target) fun name hname => places_assign ?_ hvalue
    rw [Expr.text_eq_draft, hname]
  · intro i occs hoccs o ho b hb
    simp only [List.getElem?_map, Option.map_eq_some_iff] at hoccs
    obtain ⟨target, -, rfl⟩ := hoccs
    obtain rfl := List.mem_singleton.mp ho
    exact Or.inl hb

/-- **Rendering goes through the occurrences of a statement**, in order. -/
theorem places_stmt (s : Stmt) :
    ∀ p bodies, Places declared (within p) bodies s.direct (s.occurrences p bodies) := by
  induction s with
  | mk l form ih =>
    intro p bodies
    have hblock : ∀ (f : Field) (ss : List Stmt), (∀ c ∈ ss, c ∈ form.children) → ∀ bodies,
        Places declared (withinField p f) bodies
          (lines ((ss.map fun c => (c.loc, (c.direct : Draft Sketch))).map Prod.snd))
          (occurrencesIn p f (ss.map Stmt.occurrences) bodies) := by
      intro f ss hss bodies
      rw [List.map_map]
      exact places_block bodies fun c hc => ih c (hss c hc)
    rw [Stmt.direct_mk, Stmt.occurrences_mk]
    refine Places.around l ?_
    cases form with
    | functionDef name params body decorators =>
      cases decorators with
      | cons decorator rest => exact (places_fail _).around _
      | nil =>
        -- the parameters are rendered inside of the new body, but they assign to nothing
        have hbody := hblock .body body (fun c hc => hc) (⟨p, params.boundNames⟩ :: bodies)
        refine Places.bind (quiet_pure name).read fun _ _ => ?_
        refine Places.inScope ⟨p, params.boundNames⟩ ?_ (withinField_subset p .body)
          (List.suffix_refl p) (own_not_mem_withinField p .body)
        exact Places.bind (quiet_params params) fun _ _ => hbody.read.wrap _ _
    | ret value => exact Places.bind (quiet_optional value).read fun _ _ => places_text _
    | delete targets => exact Places.bind (quiet_all targets) fun _ _ => places_text _
    | assign targets value =>
      refine Places.bind (quiet_expr value).read fun v hv => places_targets targets ?_
      rw [Expr.text_eq_draft, ← hv]
      exact (Draft.andThen_result _ _).symm
    | augAssign target op value =>
      by_cases hop : op = .floorDiv
      · subst hop
        exact Places.bind (quiet_expr target).readTwice fun _ _ =>
          Places.bind (quiet_expr value).read fun _ _ => places_text _
      · show Places _ _ _ (StmtForm.direct (.augAssign target op value)) []
        rw [Simulation.direct_augAssign hop]
        exact Places.bind (quiet_expr target).read fun _ _ =>
          Places.bind (quiet_given op.spell).read fun _ _ =>
            Places.bind (quiet_expr value).read fun _ _ => places_text _
    | forLoop target iter body orelse =>
      cases orelse with
      | cons stmt rest => exact (places_fail _).around _
      | nil =>
        obtain ⟨loc, form⟩ := target
        cases form with
        | name id =>
          have hbody := hblock .body body (fun c hc => List.mem_append_left _ hc)
            (⟨p, [id]⟩ :: bodies)
          refine Places.bind (quiet_expr iter).read fun _ _ => ?_
          exact Places.inScope ⟨p, [id]⟩ (hbody.read.wrap _ _) (withinField_subset p .body)
            (List.suffix_refl p) (own_not_mem_withinField p .body)
        | _ => exact (places_fail _).around _
    | whileLoop test body orelse =>
      cases orelse with
      | cons stmt rest => exact (places_fail _).around _
      | nil =>
        have hbody := hblock .body body (fun c hc => List.mem_append_left _ hc) bodies
        refine Places.bind (quiet_expr test).read fun _ _ => ?_
        exact (hbody.read.wrap _ _).mono (withinField_subset p .body)
    | cond test body orelse =>
      have hbody := hblock .body body (fun c hc => List.mem_append_left _ hc) bodies
      have horelse := hblock .orelse orelse (fun c hc => List.mem_append_right _ hc) bodies
      refine Places.bind (quiet_expr test).read fun _ _ => ?_
      refine Places.mono (Set.union_subset (withinField_subset p .body) (withinField_subset p .orelse))
        ((hbody.read.wrap _ _).both (horelse.read.wrap _ _) ?_)
      intro o ho b hb
      have hinside := inside_occurrencesIn (f := .body) (fun c _ => c.inside_occurrences) o ho b hb
      refine hinside.imp_right fun hmem => ?_
      exact Set.disjoint_left.mp (withinField_disjoint p (by decide)) hmem
    | raise exc cause =>
      cases cause with
      | some cause => exact (places_fail _).around _
      | none => exact Places.bind (quiet_optional exc).read fun _ _ => places_text _
    | expr value => exact Places.bind (quiet_expr value).read fun _ _ => places_text _
    | pass => exact places_text _
    | breakLoop => exact places_text _
    | continueLoop => exact places_text _
    | _ => exact places_fail _

end Trees

/-! ### Bodies -/

/-- How the assignments of a body come out.  `seen` are the occurrences that were rendered, in the
    order of rendering, with the texts of their targets and values. -/
structure VarPlacement (stmts : List Stmt) (declared : List String) (t : Traced String)
    (seen : List Emitted) : Prop where
  /-- These are the first occurrences of the body. -/
  order : seen.map Emitted.occurrence <+: occurrencesOf stmts
  texts : ∀ x ∈ seen, x.occurrence.target.text = .ok x.text ∧ x.occurrence.value.text = .ok x.value
  /-- An assignment is reported with `var` exactly if the occurrence declares its text. -/
  events : assignments t.events =
    seen.mapIdx fun i x => (x.text, decide (Declares declared (seen.take i) x))
  /-- On success these are all occurrences, and the text has `var` in front of exactly those
      assignments that are reported with it. -/
  emitted : ∀ text, t.result = .ok text →
    seen.map Emitted.occurrence = occurrencesOf stmts ∧
    ∃ sketch, (Draft.ofStmts stmts).result = .ok sketch ∧
      sketch.entries = (seen.map fun x => (x.text, x.value)) ∧
      text = sketch.fill ((assignments t.events).map Prod.snd)
  /-- A name gets `var` at most once in a body. -/
  once : ∀ (i j : Nat) x y, i < j → seen[i]? = some x → seen[j]? = some y →
    x.occurrence.bodies = y.occurrence.bodies → x.text = y.text →
    (assignments t.events)[j]? = some (y.text, false)
  /-- A parameter or a loop variable never gets it. -/
  bound : ∀ (i : Nat) x, seen[i]? = some x → (∃ b ∈ x.occurrence.bodies, x.text ∈ b.names) →
    (assignments t.events)[i]? = some (x.text, false)

theorem places_body (stmts : List Stmt) (declared : List String) :
    ∃ seen, Placed declared [] [] (.withDeclared declared) (Draft.ofStmts stmts)
      (occurrencesOf stmts) seen := by
  have hblock : Places declared (withinField [] .body) [] (lines (stmts.map Stmt.direct))
      (occurrencesOf stmts) := places_block [] fun s _ => places_stmt s
  refine hblock [] _ (tells_withDeclared declared) ⟨?_, ?_⟩
  · exact fun b hb => absurd hb List.not_mem_nil
  · exact fun y hy => absurd hy List.not_mem_nil

theorem exists_varPlacement (stmts : List Stmt) (declared : List String) :
    ∃ seen, VarPlacement stmts declared (renderBody stmts declared) seen := by
  obtain ⟨seen, hseen⟩ := places_body stmts declared
  have hevents : assignments (renderBody stmts declared).events =
      seen.mapIdx fun i x => (x.text, decide (Declares declared (seen.take i) x)) := by
    rw [assignments_renderBody, hseen.flags, placement_eq_mapIdx]
  have hflag : ∀ (i : Nat) x, seen[i]? = some x → ¬Declares declared (seen.take i) x →
      (assignments (renderBody stmts declared).events)[i]? = some (x.text, false) := by
    intro i x hx hnot
    rw [hevents, List.getElem?_mapIdx, hx, Option.map_some, decide_eq_false hnot]
  refine ⟨seen, hseen.sofar, hseen.texts, hevents, ?_, ?_, ?_⟩
  · intro text htext
    have hbody := renderBody_eq_draft stmts declared
    cases hd : (Draft.ofStmts stmts).result with
    | error e =>
      simp only [hd] at hbody
      rw [hbody] at htext
      cases htext
    | ok sketch =>
      obtain ⟨hall, hentries⟩ := hseen.done sketch hd
      refine ⟨hall, sketch, rfl, hentries, ?_⟩
      rw [assignments_renderBody]
      simp only [hd] at hbody
      rw [hbody] at htext
      exact (Except.ok.inj htext).symm
  · intro i j x y hij hx hy hbodies htext
    refine hflag j y hy fun hdeclares => hdeclares.2.2 (Or.inr (Or.inr ⟨x, ?_, htext, ?_⟩))
    · exact List.mem_of_getElem? (i := i) (by rw [List.getElem?_take, if_pos hij, hx])
    · exact ⟨[], hbodies⟩
  · intro i x hx hbound
    exact hflag i x hx fun hdeclares => hdeclares.2.2 (Or.inr (Or.inl hbound))

/-! ### Names and references -/

theorem Expr.text_attribute {l : Loc} {value : Expr} {attr t : String}
    (h : (⟨l, .attribute value attr⟩ : Expr).text = .ok t) : ∃ v, t = v ++ "." ++ attr := by
  rw [Expr.text_eq_draft, Expr.direct_mk] at h
  obtain ⟨v, -, h⟩ := Draft.result_of_bind (Draft.result_of_around h)
  obtain ⟨a, ha, h⟩ := Draft.result_of_bind h
  cases ha
  cases h
  exact ⟨v, rfl⟩

theorem Expr.text_subscript {l : Loc} {value index : Expr} {t : String}
    (h : (⟨l, .subscript value index⟩ : Expr).text = .ok t) : ∃ v i, t = v ++ "[" ++ i ++ "]" := by
  rw [Expr.text_eq_draft, Expr.direct_mk] at h
  obtain ⟨v, -, h⟩ := Draft.result_of_bind (Draft.result_of_around h)
  obtain ⟨i, -, h⟩ := Draft.result_of_bind h
  cases h
  exact ⟨v, i, rfl⟩

theorem Expr.text_name (l : Loc) (id : String) : (⟨l, .name id⟩ : Expr).text = .ok id := by
  rw [Expr.text_eq_draft, Expr.direct_mk]
  rfl

/-- **Placement of `var`.**  In every body, with any names declared beforehand, the occurrences
    rendered get `var` as `Declares` says, and the text shows it.  The textual test tells references
    from names: the text of a member or an element always passes it, and that of a name never does
    if the name itself has no dot and no bracket. -/
theorem renderBody_places_var (stmts : List Stmt) (declared : List String) :
    (∃ seen, VarPlacement stmts declared (renderBody stmts declared) seen) ∧
    (∀ l value attr t, (⟨l, .attribute value attr⟩ : Expr).text = .ok t →
      '.' ∈ t.toList ∨ '[' ∈ t.toList) ∧
    (∀ l value index t, (⟨l, .subscript value index⟩ : Expr).text = .ok t →
      '.' ∈ t.toList ∨ '[' ∈ t.toList) ∧
    (∀ l id t, (⟨l, .name id⟩ : Expr).text = .ok t → '.' ∉ id.toList ∧ '[' ∉ id.toList →
      ¬('.' ∈ t.toList ∨ '[' ∈ t.toList)) := by
  refine ⟨exists_varPlacement stmts declared, ?_, ?_, ?_⟩
  · intro l value attr t ht
    obtain ⟨v, rfl⟩ := Expr.text_attribute ht
    exact Or.inl (by simp)
  · intro l value index t ht
    obtain ⟨v, i, rfl⟩ := Expr.text_subscript ht
    exact Or.inr (by simp)
  · intro l id t ht hid
    rw [Expr.text_name] at ht
    cases ht
    exact fun hmem => hmem.elim hid.1 hid.2

/-- `x = null`, then a function with the parameter `a` that assigns to `x`, `a`, `y` and `x.k`, then
    `y = null` and `k = null`. -/
def assigningBody : List Stmt :=
  let null : Expr := ⟨.synthetic, .constant .null⟩
  let name (id : String) : Expr := ⟨.synthetic, .name id⟩
  let assign (target : Expr) : Stmt := ⟨.synthetic, .assign [target] null⟩
  let member : Expr := ⟨.synthetic, .attribute (name "x") "k"⟩
  let params : Params Expr := ⟨.synthetic, [], [⟨.synthetic, "a"⟩], none, [], none, []⟩
  [assign (name "x"),
    ⟨.synthetic, .functionDef "f" params
      [assign (name "x"), assign (name "a"), assign (name "y"), assign member] []⟩,
    assign (name "y"), assign (name "k")]

theorem renderBody_places_var_sample :
    (renderBody assigningBody ["k"]).result = .ok
      ("var x = null;\nfunction f(a) \x7b\nx = null;\na = null;\nvar y = null;\nx.k = null\n\x7d;\n" ++
        "var y = null;\nk = null") ∧
    (∃ seen, VarPlacement assigningBody ["k"] (renderBody assigningBody ["k"]) seen) ∧
    ('.' ∈ "x.k".toList ∨ '[' ∈ "x.k".toList) ∧ ('.' ∈ "x[y]".toList ∨ '[' ∈ "x[y]".toList) ∧
    ¬('.' ∈ "x".toList ∨ '[' ∈ "x".toList) :=
  have h := renderBody_places_var assigningBody ["k"]
  ⟨rfl, h.1, h.2.1 .synthetic ⟨.synthetic, .name "x"⟩ "k" "x.k" rfl,
    h.2.2.1 .synthetic ⟨.synthetic, .name "x"⟩ ⟨.synthetic, .name "y"⟩ "x[y]" rfl,
    h.2.2.2 .synthetic "x" "x" rfl (by decide)⟩

end ScriptTree
