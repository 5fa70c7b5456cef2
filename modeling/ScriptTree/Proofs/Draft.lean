/-
  ScriptTree/Proofs/Draft.lean
  ============================
  **Drafts: rendering before the scopes are known.**  Which text comes of a tree depends on the
  scopes in one respect only, the `var` of its assignments.  A draft carries out the rules without
  scopes.  It gives a `Sketch`, a text in which the assignments are still open, and the list of
  *acts* on the way to it or to an error: scopes opened and closed, targets assigned to, texts
  stored and found again.

  What rendering does is then a matter of performing the acts, one after the other, on a stack of
  scopes (`scopesAfter`, `eventsOf`), and of filling the sketch with the flags that come of it.  The
  simulation `drafting` shows this for every tree, and `renderBody_eq_draft` draws the conclusion for
  a whole body.  What differs between two runs of one body can therefore be studied on a list of
  acts, with no trees in sight.
-/
import ScriptTree.Proofs.ScopeLaws
import ScriptTree.Proofs.Slots
import ScriptTree.Script.Basic

namespace ScriptTree

/-! ### Acts and their performance -/

/-- Something that rendering does besides making a text. -/
inductive Act where
  /-- A scope is opened where some names are declared. -/
  | enter (names : List String)
  | leave
  /-- The target with the given text is assigned to. -/
  | assign (name : String)
  | compute
  | reuse
  deriving DecidableEq

namespace Act

/-- Whether an assignment to a target gets `var`. -/
def gives (s : ScopeStack) (name : String) : Bool := !(isReference name || s.contains name)

def after (s : ScopeStack) : Act → ScopeStack
  | .enter names => s.enter.declare names
  | .leave => s.exit
  | .assign name => if gives s name then s.declare [name] else s
  | .compute | .reuse => s

def events (s : ScopeStack) : Act → List Event
  | .enter _ => [.enteredScope s.enter.depth]
  | .leave => if 1 < s.depth then [.exitedScope s.exit.depth] else []
  | .assign name => [.assignment name (gives s name)]
  | .compute | .reuse => []

def target? : Act → Option String
  | .assign name => some name
  | _ => none

end Act

def scopesAfter (s : ScopeStack) (acts : List Act) : ScopeStack := acts.foldl Act.after s

def eventsOf : ScopeStack → List Act → List Event
  | _, [] => []
  | s, a :: rest => a.events s ++ eventsOf (a.after s) rest

def statsAfter (stats : Stats) (acts : List Act) : Stats :=
  ⟨stats.computed + acts.count .compute, stats.hits + acts.count .reuse⟩

def assigned (acts : List Act) : List String := acts.filterMap Act.target?

/-- The assignments among events, each with its flag. -/
def assignments (es : List Event) : List (String × Bool) :=
  es.filterMap fun
    | .assignment name declared => some (name, declared)
    | _ => none

theorem scopesAfter_append (s : ScopeStack) (acts more : List Act) :
    scopesAfter s (acts ++ more) = scopesAfter (scopesAfter s acts) more :=
  List.foldl_append

theorem eventsOf_append (s : ScopeStack) (acts more : List Act) :
    eventsOf s (acts ++ more) = eventsOf s acts ++ eventsOf (scopesAfter s acts) more := by
  induction acts generalizing s with
  | nil => rfl
  | cons a rest ih =>
    simp only [List.cons_append, eventsOf, ih, List.append_assoc]
    rfl

theorem statsAfter_append (stats : Stats) (acts more : List Act) :
    statsAfter stats (acts ++ more) = statsAfter (statsAfter stats acts) more := by
  simp only [statsAfter, List.count_append, Nat.add_assoc]

@[simp]
theorem assigned_append (acts more : List Act) :
    assigned (acts ++ more) = assigned acts ++ assigned more :=
  List.filterMap_append

@[simp]
theorem assignments_append (es fs : List Event) :
    assignments (es ++ fs) = assignments es ++ assignments fs :=
  List.filterMap_append

/-- Acts report their targets in order. -/
theorem assignments_eventsOf (s : ScopeStack) (acts : List Act) :
    (assignments (eventsOf s acts)).map Prod.fst = assigned acts := by
  induction acts generalizing s with
  | nil => rfl
  | cons a rest ih =>
    rw [eventsOf, assignments_append, List.map_append, ih]
    cases a with
    | leave =>
      simp only [Act.events]
      split <;> rfl
    | _ => rfl

/-! ### Sketches -/

inductive Segment where
  | text (t : String)
  /-- An assignment that may yet get `var`. -/
  | assignment (name value : String)

/-- A text in which the assignments are open. -/
abbrev Sketch := List Segment

namespace Sketch

/-- The assignments of a sketch, target and value. -/
def entries (sketch : Sketch) : List (String × String) :=
  sketch.filterMap fun
    | .assignment name value => some (name, value)
    | .text _ => none

/-- The text of a sketch whose assignments get `var` as the flags say. -/
def fill : Sketch → List Bool → String
  | [], _ => ""
  | .text t :: rest, flags => t ++ fill rest flags
  | .assignment name value :: rest, flags =>
    (if flags.headD false then "var " ++ name ++ " = " ++ value else name ++ " = " ++ value) ++
      fill rest flags.tail

@[simp]
theorem entries_append (sketch rest : Sketch) :
    entries (sketch ++ rest) = entries sketch ++ entries rest :=
  List.filterMap_append

/-- Each sketch takes as many flags as it has assignments. -/
theorem fill_append (sketch rest : Sketch) (flags more : List Bool)
    (h : flags.length = sketch.entries.length) :
    fill (sketch ++ rest) (flags ++ more) = fill sketch flags ++ fill rest more := by
  induction sketch generalizing flags with
  | nil =>
    obtain rfl : flags = [] := List.length_eq_zero_iff.mp h
    simp [fill]
  | cons segment sketch ih =>
    cases segment with
    | text t =>
      have hrest := ih flags h
      simp only [List.cons_append, fill, hrest, String.append_assoc]
    | assignment name value =>
      obtain ⟨flag, flags, rfl⟩ := List.exists_cons_of_length_eq_add_one h
      have hrest := ih flags (Nat.succ.inj h)
      simp only [List.cons_append, fill, List.headD_cons, List.tail_cons, hrest,
        String.append_assoc]

end Sketch

/-! ### Drafts -/

/-- A result and the acts on the way to it. -/
structure Draft (α : Type) where
  result : Except RenderError α
  acts : List Act

namespace Draft

variable {α β : Type}

instance : Monad Draft where
  pure a := ⟨.ok a, []⟩
  bind d f :=
    match d.result with
    | .error e => ⟨.error e, d.acts⟩
    | .ok a => ⟨(f a).result, d.acts ++ (f a).acts⟩

/-- A draft that ends with further acts unless it fails. -/
def andThen (d : Draft α) (acts : List Act) : Draft α :=
  match d.result with
  | .error _ => d
  | .ok _ => ⟨d.result, d.acts ++ acts⟩

instance : Rendition Draft Sketch where
  fail e := ⟨.error e, []⟩
  around l d := ⟨d.result.mapError fun e => e.around l, d.acts⟩
  inScope names d := ⟨d.result, .enter names :: d.acts ++ [.leave]⟩
  read d := d.andThen [.compute]
  readTwice d := ⟨d.result.map fun text => (text, text), (d.andThen [.compute, .reuse]).acts⟩
  text t := ⟨.ok [.text t], []⟩
  both d e := do
    let a ← d
    let b ← e
    return a ++ b
  assign name value := ⟨.ok [.assignment name value], [.assign name]⟩

variable {d : Draft α} {f : α → Draft β}

theorem bind_of_error {e : RenderError} (h : d.result = .error e) :
    d >>= f = ⟨.error e, d.acts⟩ := by
  show (match d.result with | .error e => Draft.mk (.error e) d.acts | .ok a => _) = _
  rw [h]

theorem bind_of_ok {a : α} (h : d.result = .ok a) :
    d >>= f = ⟨(f a).result, d.acts ++ (f a).acts⟩ := by
  show (match d.result with
    | .error e => _
    | .ok a => Draft.mk (f a).result (d.acts ++ (f a).acts)) = _
  rw [h]

theorem andThen_of_error {e : RenderError} (acts : List Act) (h : d.result = .error e) :
    d.andThen acts = d := by
  rw [andThen, h]

theorem andThen_of_ok {a : α} (acts : List Act) (h : d.result = .ok a) :
    d.andThen acts = ⟨d.result, d.acts ++ acts⟩ := by
  rw [andThen, h]

@[simp]
theorem andThen_result (d : Draft α) (acts : List Act) : (d.andThen acts).result = d.result := by
  unfold andThen
  split
  · rfl
  · rfl

theorem result_of_bind {b : β} (h : (d >>= f).result = .ok b) :
    ∃ a, d.result = .ok a ∧ (f a).result = .ok b := by
  cases hd : d.result with
  | error e =>
    rw [bind_of_error hd] at h
    cases h
  | ok a =>
    rw [bind_of_ok hd] at h
    exact ⟨a, rfl, h⟩

theorem result_of_around {l : Loc} {a : α} (h : (Rendition.around l d).result = .ok a) :
    d.result = .ok a := by
  replace h : d.result.mapError (fun e => e.around l) = .ok a := h
  cases hd : d.result with
  | error e =>
    rw [hd] at h
    cases h
  | ok b =>
    rw [hd] at h
    exact h

def ofStmts (stmts : List Stmt) : Draft Sketch := directAll stmts

end Draft

/-! ### Rendering performs the acts of the draft -/

section Tracking

variable {κ : Type} [DecidableEq κ] {α β : Type} (keyOf : Place → κ) (nodes : Set Place)

/-- A run from one renderer to another that performs acts and fills no slots but those given. -/
structure Tracks (S : Set Slot) (r r' : Renderer κ) (es : List Event) (acts : List Act) : Prop where
  scopes : r'.scopes = scopesAfter r.scopes acts
  events : es = eventsOf r.scopes acts
  stats : r'.cache.stats = statsAfter r.cache.stats acts
  kept : Untouched keyOf nodes S r.cache r'.cache

/-- An action that ends like a draft and performs its acts. -/
def FollowsExpr (S : Set Slot) (m : Render κ α) (d : Draft α) : Prop :=
  (∀ r, Fresh keyOf nodes S r.cache →
    (m r).result = d.result ∧ Tracks keyOf nodes S r (m r).renderer (m r).events d.acts) ∧
  assigned d.acts = []

/-- An action that fills the sketch of a draft with the flags it reports. -/
def FollowsStmt (S : Set Slot) (m : Render κ String) (d : Draft Sketch) : Prop :=
  (∀ r, Fresh keyOf nodes S r.cache →
    (m r).result = d.result.map (fun sketch =>
      sketch.fill ((assignments (m r).events).map Prod.snd)) ∧
    Tracks keyOf nodes S r (m r).renderer (m r).events d.acts) ∧
  ∀ sketch, d.result = .ok sketch → sketch.entries.map Prod.fst = assigned d.acts

variable {keyOf nodes} {S S' : Set Slot} {r r' r'' : Renderer κ} {es es' : List Event}
  {acts acts' : List Act}

theorem Tracks.mono (hS : S ⊆ S') (h : Tracks keyOf nodes S r r' es acts) :
    Tracks keyOf nodes S' r r' es acts :=
  ⟨h.scopes, h.events, h.stats, h.kept.mono hS⟩

theorem tracks_nothing : Tracks keyOf nodes S r r [] [] :=
  ⟨rfl, rfl, rfl, Untouched.refl⟩

theorem Tracks.trans (h : Tracks keyOf nodes S r r' es acts)
    (h' : Tracks keyOf nodes S' r' r'' es' acts') :
    Tracks keyOf nodes (S ∪ S') r r'' (es ++ es') (acts ++ acts') where
  scopes := by rw [h'.scopes, h.scopes, scopesAfter_append]
  events := by rw [h'.events, h.events, h.scopes, eventsOf_append]
  stats := by rw [h'.stats, h.stats, statsAfter_append]
  kept := h.kept.trans h'.kept

/-- Acts on the way report as many flags as they have targets. -/
theorem Tracks.length_flags (h : Tracks keyOf nodes S r r' es acts) :
    ((assignments es).map Prod.snd).length = (assigned acts).length := by
  rw [h.events, ← assignments_eventsOf r.scopes acts, List.length_map, List.length_map]

theorem Tracks.no_flags (h : Tracks keyOf nodes S r r' es acts) (hnone : assigned acts = []) :
    assignments es = [] := by
  have hnames := assignments_eventsOf r.scopes acts
  rw [← h.events, hnone] at hnames
  exact List.map_eq_nil_iff.mp hnames

theorem Tracks.inScope {names : List String} {m : Render κ α}
    (h : Tracks keyOf nodes S ⟨r.scopes.enter.declare names, r.cache⟩
      (m ⟨r.scopes.enter.declare names, r.cache⟩).renderer
      (m ⟨r.scopes.enter.declare names, r.cache⟩).events acts) :
    Tracks keyOf nodes S r (Render.inScope names m r).renderer (Render.inScope names m r).events
      (.enter names :: acts ++ [.leave]) where
  scopes := by
    rw [scopesAfter_append]
    show (m _).renderer.scopes.exit = (scopesAfter (r.scopes.enter.declare names) acts).exit
    rw [h.scopes]
  events := by
    rw [eventsOf_append]
    show .enteredScope r.scopes.enter.depth :: (m _).events ++ _ =
      .enteredScope r.scopes.enter.depth :: eventsOf (r.scopes.enter.declare names) acts ++
        ((Act.leave.events (scopesAfter (r.scopes.enter.declare names) acts)) ++ [])
    rw [h.events, h.scopes, List.append_nil]
    rfl
  stats := by
    have hcounts : statsAfter r.cache.stats (.enter names :: acts ++ [.leave]) =
        statsAfter r.cache.stats acts := by
      simp [statsAfter]
    rw [hcounts]
    exact h.stats
  kept := h.kept

theorem Tracks.stored {o : Outcome κ String} {p : Place} {f : Field} {site : Site κ}
    {d : Draft α} (hinj : Set.InjOn keyOf nodes) (hp : p ∈ nodes) (hkey : site.key = keyOf p)
    (hresult : (∃ e, o.result = .error e ∧ d.result = .error e) ∨
      ∃ text a, o.result = .ok text ∧ d.result = .ok a)
    (h : Tracks keyOf nodes S r o.renderer o.events d.acts) :
    Tracks keyOf nodes (insert ⟨p, f, .rendered⟩ S) r
      (o.stored ⟨site.key, f, .rendered⟩).renderer (o.stored ⟨site.key, f, .rendered⟩).events
      (d.andThen [.compute]).acts := by
  have hkept := Site.untouched_attr (f := f) hinj hp hkey h.kept
  rw [Outcome.stored_events]
  rcases hresult with ⟨e, ho, hd⟩ | ⟨text, a, ho, hd⟩
  · rw [Draft.andThen_of_error _ hd]
    have hsame : o.stored ⟨site.key, f, .rendered⟩ = o := by rw [Outcome.stored, ho]
    rw [hsame] at hkept ⊢
    exact ⟨h.scopes, h.events, h.stats, hkept⟩
  · rw [Draft.andThen_of_ok _ hd]
    refine ⟨?_, ?_, ?_, hkept⟩
    · rw [Outcome.stored_scopes, scopesAfter_append]
      exact h.scopes
    · rw [eventsOf_append, h.events]
      exact (List.append_nil _).symm
    · rw [statsAfter_append, ← h.stats, Outcome.stored, ho]
      rfl

/-! ### Expressions -/

section Exprs

variable {m : Render κ α} {d : Draft α}

theorem FollowsExpr.mono (hS : S ⊆ S') (h : FollowsExpr keyOf nodes S m d) :
    FollowsExpr keyOf nodes S' m d := by
  refine ⟨fun r hfresh => ?_, h.2⟩
  obtain ⟨hresult, htracks⟩ := h.1 r (hfresh.mono hS)
  exact ⟨hresult, htracks.mono hS⟩

theorem followsExpr_pure (a : α) : FollowsExpr keyOf nodes ∅ (pure a) (pure a) :=
  ⟨fun _ _ => ⟨rfl, tracks_nothing⟩, rfl⟩

theorem followsExpr_fail (e : RenderError) :
    FollowsExpr keyOf nodes ∅ (Render.fail e : Render κ α) (Rendition.fail e) :=
  ⟨fun _ _ => ⟨rfl, tracks_nothing⟩, rfl⟩

theorem FollowsExpr.bind {f : α → Render κ β} {g : α → Draft β} (hdisjoint : Disjoint S S')
    (hm : FollowsExpr keyOf nodes S m d) (hf : ∀ a, FollowsExpr keyOf nodes S' (f a) (g a)) :
    FollowsExpr keyOf nodes (S ∪ S') (m >>= f) (d >>= g) := by
  constructor
  · intro r hfresh
    obtain ⟨hresult, htracks⟩ := hm.1 r (hfresh.mono Set.subset_union_left)
    cases hd : d.result with
    | error e =>
      rw [Render.bind_of_error (hresult.trans hd), Draft.bind_of_error hd]
      exact ⟨rfl, htracks.mono Set.subset_union_left⟩
    | ok a =>
      rw [Render.bind_of_ok (hresult.trans hd), Draft.bind_of_ok hd]
      have hfresh' := htracks.kept.fresh hdisjoint (hfresh.mono Set.subset_union_right)
      obtain ⟨hresult', htracks'⟩ := (hf a).1 (m r).renderer hfresh'
      exact ⟨hresult', htracks.trans htracks'⟩
  · cases hd : d.result with
    | error e =>
      rw [Draft.bind_of_error hd]
      exact hm.2
    | ok a =>
      rw [Draft.bind_of_ok hd, assigned_append, hm.2, (hf a).2]
      rfl

theorem FollowsExpr.around (l : Loc) (h : FollowsExpr keyOf nodes S m d) :
    FollowsExpr keyOf nodes S (Render.around l m) (Rendition.around l d) := by
  refine ⟨fun r hfresh => ?_, h.2⟩
  obtain ⟨hresult, htracks⟩ := h.1 r hfresh
  refine ⟨?_, htracks⟩
  show (m r).result.mapError _ = d.result.mapError _
  rw [hresult]

theorem FollowsExpr.inScope (names : List String) (h : FollowsExpr keyOf nodes S m d) :
    FollowsExpr keyOf nodes S (Render.inScope names m) (Rendition.inScope names d) := by
  constructor
  · intro r hfresh
    obtain ⟨hresult, htracks⟩ := h.1 ⟨r.scopes.enter.declare names, r.cache⟩ hfresh
    exact ⟨hresult, htracks.inScope⟩
  · show assigned (.enter names :: d.acts ++ [.leave]) = []
    rw [assigned_append]
    exact (List.append_nil _).trans h.2

end Exprs

section Fields

variable {site : Site κ} {p : Place} {f : Field} {d : Draft String}
  {v : FieldValue (Render κ String) (Render κ String)}

theorem Draft.assigned_andThen {d : Draft α} (hmore : assigned acts = []) :
    assigned (d.andThen acts).acts = assigned d.acts := by
  cases hd : d.result with
  | error e => rw [Draft.andThen_of_error _ hd]
  | ok a => rw [Draft.andThen_of_ok _ hd, assigned_append, hmore, List.append_nil]

theorem FollowsExpr.attr (hinj : Set.InjOn keyOf nodes) (hp : p ∈ nodes)
    (hkey : site.key = keyOf p) (hv : site.fields.lookup f = some v)
    (hnot : ⟨p, f, .rendered⟩ ∉ S) (h : FollowsExpr keyOf nodes S v.render d) :
    FollowsExpr keyOf nodes (insert ⟨p, f, .rendered⟩ S) (site.attr f) (Rendition.read d) := by
  refine ⟨fun r hfresh => ?_, (Draft.assigned_andThen rfl).trans h.2⟩
  obtain ⟨hresult, htracks⟩ := h.1 r (hfresh.mono (Set.subset_insert _ _))
  rw [Site.attr_of_fresh hp hkey hv hnot hfresh htracks.kept]
  constructor
  · rw [Outcome.stored_result]
    exact hresult.trans (d.andThen_result _).symm
  · refine htracks.stored hinj hp hkey ?_
    cases hd : d.result with
    | error e => exact Or.inl ⟨e, hresult.trans hd, rfl⟩
    | ok text => exact Or.inr ⟨text, text, hresult.trans hd, rfl⟩

theorem followsExpr_rawAttr {t : String} (hinj : Set.InjOn keyOf nodes) (hp : p ∈ nodes)
    (hkey : site.key = keyOf p) (hv : site.fields.lookup f = some (.ident t)) :
    FollowsExpr keyOf nodes {⟨p, f, .raw⟩} (site.rawAttr f) (Rendition.read (pure t)) := by
  refine ⟨fun r hfresh => ?_, rfl⟩
  rw [Site.rawAttr_of_fresh hp hkey hv hfresh]
  exact ⟨rfl, rfl, rfl, rfl, Outcome.untouched_stored ⟨.ok t, r, []⟩ hinj hp⟩

theorem FollowsExpr.attrTwice (hinj : Set.InjOn keyOf nodes) (hp : p ∈ nodes)
    (hkey : site.key = keyOf p) (hv : site.fields.lookup f = some v)
    (hnot : ⟨p, f, .rendered⟩ ∉ S) (h : FollowsExpr keyOf nodes S v.render d) :
    FollowsExpr keyOf nodes (insert ⟨p, f, .rendered⟩ S)
      (do
        let first ← site.attr f
        let second ← site.attr f
        return (first, second))
      (Rendition.readTwice d) := by
  have honce := h.attr hinj hp hkey hv hnot
  constructor
  · intro r hfresh
    obtain ⟨-, hinner⟩ := h.1 r (hfresh.mono (Set.subset_insert _ _))
    have hattr := Site.attr_of_fresh hp hkey hv hnot hfresh hinner.kept
    obtain ⟨hresult, htracks⟩ := honce.1 r hfresh
    replace hresult : (site.attr f r).result = d.result := hresult.trans (d.andThen_result _)
    replace htracks : Tracks keyOf nodes _ r _ _ (d.andThen [.compute]).acts := htracks
    show _ = d.result.map _ ∧ Tracks keyOf nodes _ r _ _ (d.andThen [.compute, .reuse]).acts
    cases hd : d.result with
    | error e =>
      rw [Draft.andThen_of_error _ hd] at htracks ⊢
      rw [Render.bind_of_error (hresult.trans hd)]
      exact ⟨rfl, htracks⟩
    | ok text =>
      have hok := hresult.trans hd
      have hfound := Site.get?_of_attr hattr hok
      have hhit : Tracks keyOf nodes ∅ (site.attr f r).renderer
          ⟨(site.attr f r).renderer.scopes, (site.attr f r).renderer.cache.hit⟩ [] [.reuse] :=
        ⟨rfl, rfl, rfl, Untouched.refl⟩
      rw [Draft.andThen_of_ok _ hd] at htracks ⊢
      have hboth := htracks.trans hhit
      rw [Set.union_empty, List.append_nil, List.append_assoc] at hboth
      rw [Site.attrTwice_of_ok hok hfound]
      exact ⟨rfl, hboth⟩
  · exact (Draft.assigned_andThen rfl).trans h.2

end Fields

/-! ### Statements -/

section Stmts

variable {m n : Render κ String} {d e : Draft Sketch}

theorem FollowsStmt.mono (hS : S ⊆ S') (h : FollowsStmt keyOf nodes S m d) :
    FollowsStmt keyOf nodes S' m d := by
  refine ⟨fun r hfresh => ?_, h.2⟩
  obtain ⟨hresult, htracks⟩ := h.1 r (hfresh.mono hS)
  exact ⟨hresult, htracks.mono hS⟩

theorem followsStmt_text (t : String) :
    FollowsStmt keyOf nodes ∅ (pure t) (Rendition.text t) := by
  refine ⟨fun r _ => ⟨?_, tracks_nothing⟩, ?_⟩
  · show Except.ok t = .ok (t ++ "")
    rw [String.append_empty]
  · rintro sketch ⟨⟩
    rfl

theorem followsStmt_fail (err : RenderError) :
    FollowsStmt keyOf nodes ∅ (Render.fail err) (Rendition.fail err) := by
  refine ⟨fun r _ => ⟨rfl, tracks_nothing⟩, ?_⟩
  rintro sketch ⟨⟩

/-- An expression in front of a statement takes no flags. -/
theorem FollowsStmt.bind {m : Render κ α} {d : Draft α} {f : α → Render κ String}
    {g : α → Draft Sketch} (hdisjoint : Disjoint S S') (hm : FollowsExpr keyOf nodes S m d)
    (hf : ∀ a, FollowsStmt keyOf nodes S' (f a) (g a)) :
    FollowsStmt keyOf nodes (S ∪ S') (m >>= f) (d >>= g) := by
  constructor
  · intro r hfresh
    obtain ⟨hresult, htracks⟩ := hm.1 r (hfresh.mono Set.subset_union_left)
    cases hd : d.result with
    | error err =>
      rw [Render.bind_of_error (hresult.trans hd), Draft.bind_of_error hd]
      exact ⟨rfl, htracks.mono Set.subset_union_left⟩
    | ok a =>
      rw [Render.bind_of_ok (hresult.trans hd), Draft.bind_of_ok hd]
      have hfresh' := htracks.kept.fresh hdisjoint (hfresh.mono Set.subset_union_right)
      obtain ⟨hresult', htracks'⟩ := (hf a).1 (m r).renderer hfresh'
      refine ⟨?_, htracks.trans htracks'⟩
      simp only [assignments_append, htracks.no_flags hm.2, List.nil_append]
      exact hresult'
  · intro sketch hsketch
    obtain ⟨a, hd, hsketch⟩ := Draft.result_of_bind hsketch
    rw [Draft.bind_of_ok hd, assigned_append, hm.2, List.nil_append]
    exact (hf a).2 sketch hsketch

/-- Two statements share the flags out: the first takes as many as it has assignments. -/
theorem FollowsStmt.both (hdisjoint : Disjoint S S') (hm : FollowsStmt keyOf nodes S m d)
    (hn : FollowsStmt keyOf nodes S' n e) :
    FollowsStmt keyOf nodes (S ∪ S')
      (do
        let a ← m
        let b ← n
        return a ++ b)
      (Rendition.both d e) := by
  constructor
  · intro r hfresh
    show _ = (d >>= fun a => e >>= fun b => pure (a ++ b)).result.map _ ∧
      Tracks keyOf nodes _ r _ _ (d >>= fun a => e >>= fun b => pure (a ++ b)).acts
    obtain ⟨hresult, htracks⟩ := hm.1 r (hfresh.mono Set.subset_union_left)
    cases hd : d.result with
    | error err =>
      rw [hd] at hresult
      rw [Render.bind_of_error hresult, Draft.bind_of_error hd]
      exact ⟨rfl, htracks.mono Set.subset_union_left⟩
    | ok a =>
      rw [hd] at hresult
      rw [Render.bind_of_ok hresult, Draft.bind_of_ok hd]
      have hfresh' := htracks.kept.fresh hdisjoint (hfresh.mono Set.subset_union_right)
      obtain ⟨hresult', htracks'⟩ := hn.1 (m r).renderer hfresh'
      cases he : e.result with
      | error err =>
        rw [he] at hresult'
        rw [Render.bind_of_error hresult', Draft.bind_of_error he]
        exact ⟨rfl, htracks.trans htracks'⟩
      | ok b =>
        rw [he] at hresult'
        rw [Render.bind_of_ok hresult', Draft.bind_of_ok he]
        have hlength : ((assignments (m r).events).map Prod.snd).length = a.entries.length := by
          rw [htracks.length_flags, ← hm.2 a hd, List.length_map]
        have hnothing : (pure (a ++ b) : Draft Sketch).acts = [] := rfl
        rw [hnothing, List.append_nil]
        refine ⟨?_, by simpa using htracks.trans htracks'⟩
        show Except.ok (_ ++ _) = .ok (Sketch.fill (a ++ b) _)
        simp only [Render.pure_apply, List.append_nil, assignments_append, List.map_append]
        rw [Sketch.fill_append a b _ _ hlength]
  · intro sketch hsketch
    show _ = assigned (d >>= fun a => e >>= fun b => pure (a ++ b)).acts
    obtain ⟨a, hd, hsketch⟩ := Draft.result_of_bind hsketch
    obtain ⟨b, he, hsketch⟩ := Draft.result_of_bind hsketch
    cases hsketch
    rw [Draft.bind_of_ok hd, Draft.bind_of_ok he, Sketch.entries_append, List.map_append,
      hm.2 a hd, hn.2 b he, assigned_append, assigned_append]
    exact congrArg _ (List.append_nil _).symm

theorem FollowsStmt.around (l : Loc) (h : FollowsStmt keyOf nodes S m d) :
    FollowsStmt keyOf nodes S (Render.around l m) (Rendition.around l d) := by
  constructor
  · intro r hfresh
    obtain ⟨hresult, htracks⟩ := h.1 r hfresh
    refine ⟨?_, htracks⟩
    show (m r).result.mapError _ = (d.result.mapError _).map _
    rw [hresult]
    cases d.result <;> rfl
  · intro sketch hsketch
    exact h.2 sketch (Draft.result_of_around hsketch)

theorem FollowsStmt.inScope (names : List String) (h : FollowsStmt keyOf nodes S m d) :
    FollowsStmt keyOf nodes S (Render.inScope names m) (Rendition.inScope names d) := by
  have hassigned : assigned (.enter names :: d.acts ++ [.leave]) = assigned d.acts := by
    rw [assigned_append]
    exact List.append_nil _
  constructor
  · intro r hfresh
    obtain ⟨hresult, htracks⟩ := h.1 ⟨r.scopes.enter.declare names, r.cache⟩ hfresh
    refine ⟨?_, htracks.inScope⟩
    have hflags : assignments (Render.inScope names m r).events =
        assignments (m ⟨r.scopes.enter.declare names, r.cache⟩).events := by
      simp only [Render.inScope]
      rw [assignments_append]
      split
      · exact List.append_nil _
      · exact List.append_nil _
    rw [hflags]
    exact hresult
  · intro sketch hsketch
    exact (h.2 sketch hsketch).trans hassigned.symm

theorem FollowsStmt.attr {site : Site κ} {p : Place} {f : Field}
    {v : FieldValue (Render κ String) (Render κ String)} (hinj : Set.InjOn keyOf nodes)
    (hp : p ∈ nodes) (hkey : site.key = keyOf p) (hv : site.fields.lookup f = some v)
    (hnot : ⟨p, f, .rendered⟩ ∉ S) (h : FollowsStmt keyOf nodes S v.render d) :
    FollowsStmt keyOf nodes (insert ⟨p, f, .rendered⟩ S) (site.attr f) (Rendition.read d) := by
  constructor
  · intro r hfresh
    obtain ⟨hresult, htracks⟩ := h.1 r (hfresh.mono (Set.subset_insert _ _))
    rw [Site.attr_of_fresh hp hkey hv hnot hfresh htracks.kept]
    constructor
    · rw [Outcome.stored_result, Outcome.stored_events]
      exact hresult.trans (congrArg _ (d.andThen_result _).symm)
    · refine htracks.stored hinj hp hkey ?_
      cases hd : d.result with
      | error err =>
        rw [hd] at hresult
        exact Or.inl ⟨err, hresult, rfl⟩
      | ok sketch =>
        rw [hd] at hresult
        exact Or.inr ⟨_, sketch, hresult, rfl⟩
  · intro sketch hsketch
    have hassigned : assigned (d.andThen [.compute]).acts = assigned d.acts :=
      Draft.assigned_andThen rfl
    exact (h.2 sketch ((d.andThen_result _).symm.trans hsketch)).trans hassigned.symm

theorem followsStmt_assign (name value : String) :
    FollowsStmt keyOf nodes ∅ (assignTo value (pure name)) (Rendition.assign name value) := by
  constructor
  · intro r _
    rw [assignTo_apply]
    have hfill : ∀ flag, Sketch.fill [.assignment name value] [flag] =
        if flag then "var " ++ name ++ " = " ++ value else name ++ " = " ++ value := by
      intro flag
      simp [Sketch.fill]
    have hafter : scopesAfter r.scopes [.assign name] =
        if Act.gives r.scopes name then r.scopes.declare [name] else r.scopes := rfl
    have hevents : eventsOf r.scopes [.assign name] =
        [.assignment name (Act.gives r.scopes name)] := rfl
    split
    · rename_i hknown
      have hgives : Act.gives r.scopes name = false := by simp [Act.gives, hknown]
      rw [hgives] at hafter hevents
      exact ⟨congrArg Except.ok (hfill false).symm, hafter.symm, hevents.symm, rfl, Untouched.refl⟩
    · rename_i hknown
      have hgives : Act.gives r.scopes name = true := by simpa [Act.gives] using hknown
      rw [hgives] at hafter hevents
      exact ⟨congrArg Except.ok (hfill true).symm, hafter.symm, hevents.symm, rfl, Untouched.refl⟩
  · rintro sketch ⟨⟩
    rfl

end Stmts

/-- Rendering a tree whose nodes have different keys follows its draft. -/
def drafting (keyOf : Place → κ) (nodes : Set Place) (hinj : Set.InjOn keyOf nodes) :
    Simulation keyOf Draft Sketch where
  nodes := nodes
  expr S m d := FollowsExpr keyOf nodes S m d
  stmt S m d := FollowsStmt keyOf nodes S m d
  expr_mono hS h := h.mono hS
  expr_pure a := followsExpr_pure a
  expr_fail e := followsExpr_fail e
  expr_bind hdisjoint hm hf := hm.bind hdisjoint hf
  expr_around l h := h.around l
  expr_inScope names h := h.inScope names
  expr_attr hp hkey hv hnot h := h.attr hinj hp hkey hv hnot
  expr_rawAttr hp hkey hv := followsExpr_rawAttr hinj hp hkey hv
  expr_attrTwice hp hkey hv hnot h := h.attrTwice hinj hp hkey hv hnot
  stmt_mono hS h := h.mono hS
  stmt_text t := followsStmt_text t
  stmt_fail e := followsStmt_fail e
  stmt_both hdisjoint hm hn := hm.both hdisjoint hn
  stmt_bind hdisjoint hm hf := FollowsStmt.bind hdisjoint hm hf
  stmt_around l h := h.around l
  stmt_inScope names h := h.inScope names
  stmt_attr hp hkey hv hnot h := h.attr hinj hp hkey hv hnot
  stmt_assign name value := followsStmt_assign name value

/-- What comes of an expression depends on neither scopes nor cache. -/
theorem renderExpr_result (keyOf : Place → κ) {e : Expr} (hkeys : Set.InjOn keyOf (e.nodes []))
    (r : Renderer κ) :
    (Renderer.renderExpr keyOf e r).result = (e.direct : Draft String).result :=
  (((drafting keyOf (e.nodes []) hkeys).render_expr e [] subset_rfl).1 r.startPass fresh_empty).1

end Tracking

/-! ### Bodies -/

/-- A body is drafted first.  Then the acts are performed where the names are declared, and the
    sketch is filled with the flags that come of it. -/
theorem renderBody_eq_draft (stmts : List Stmt) (declared : List String) :
    let d := Draft.ofStmts stmts
    let es := eventsOf (ScopeStack.withDeclared declared) d.acts
    renderBody stmts declared =
      ⟨d.result.map fun sketch => sketch.fill ((assignments es).map Prod.snd),
        [.body stmts.length, .enter] ++ es ++
          d.result.toOption.toList.map (fun _ => .rendered (statsAfter ⟨0, 0⟩ d.acts)) ++
            [.exit]⟩ := by
  intro d es
  let r : Renderer Place := Renderer.withScopes (ScopeStack.withDeclared declared)
  have hbody : renderBody stmts declared =
      ⟨(renderAll id stmts r).result,
        [.body stmts.length, .enter] ++ (renderAll id stmts r).events ++
          (renderAll id stmts r).result.toOption.toList.map
            (fun _ => .rendered (renderAll id stmts r).renderer.cache.stats) ++ [.exit]⟩ := by
    have hpass : Renderer.renderStmts id stmts r = renderAll id stmts r := rfl
    simp only [renderBody]
    rw [hpass]
    cases (renderAll id stmts r).result with
    | error e => rfl
    | ok text => rfl
  have hfollows := (drafting id (nodesOf stmts) (Set.injOn_id _)).render_all stmts subset_rfl
  obtain ⟨hresult, htracks⟩ := hfollows.1 r fresh_empty
  have hevents : (renderAll id stmts r).events = es := htracks.events
  have hstats : (renderAll id stmts r).renderer.cache.stats = statsAfter ⟨0, 0⟩ d.acts :=
    htracks.stats
  replace hresult : (renderAll id stmts r).result = d.result.map _ := hresult
  rw [hbody, hresult, hevents, hstats]
  cases d.result with
  | error e => rfl
  | ok sketch => rfl

/-- The assignments of a sketch are those that the draft makes. -/
theorem Draft.entries_ofStmts {stmts : List Stmt} {sketch : Sketch}
    (h : (Draft.ofStmts stmts).result = .ok sketch) :
    sketch.entries.map Prod.fst = assigned (Draft.ofStmts stmts).acts :=
  ((drafting id (nodesOf stmts) (Set.injOn_id _)).render_all stmts subset_rfl).2 sketch h

/-- All assignments that a body reports are acts of its draft. -/
theorem assignments_renderBody (stmts : List Stmt) (declared : List String) :
    assignments (renderBody stmts declared).events =
      assignments (eventsOf (.withDeclared declared) (Draft.ofStmts stmts).acts) := by
  have hbody := renderBody_eq_draft stmts declared
  simp only at hbody
  rw [hbody]
  simp only [assignments_append]
  cases (Draft.ofStmts stmts).result with
  | error e => simp [assignments]
  | ok sketch => simp [assignments]

end ScriptTree
