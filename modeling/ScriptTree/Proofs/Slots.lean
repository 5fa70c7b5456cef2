/-
  ScriptTree/Proofs/Slots.lean
  ============================
  **What a run does to the cache.**  The keys of a tree are told apart by a set of places `nodes` on
  which `keyOf` is injective.  `Fresh` says that nothing is stored yet for some slots, `Untouched`
  that a run stored nothing outside of them.  A field of a fresh slot is rendered and stored; read
  again, it is found.  Nothing is said about keys of other places, which may coincide.
-/
import ScriptTree.Proofs.Simulation

namespace ScriptTree

variable {κ : Type} [DecidableEq κ]

def AttrKey.under (keyOf : Place → κ) (k : Slot) : AttrKey κ := ⟨keyOf k.node, k.field, k.access⟩

theorem lookup_eq_none_iff_not_mem {α β : Type} [DecidableEq α] {key : α} {entries : List (α × β)} :
    entries.lookup key = none ↔ key ∉ entries.map Prod.fst := by
  rw [List.lookup_eq_none_iff, List.mem_map, not_exists]
  refine forall_congr' fun entry => ?_
  rw [not_and, bne_iff_ne]
  exact imp_congr_right fun _ => ne_comm

namespace AttrCache

def add (c : AttrCache κ) (key : AttrKey κ) (text : String) : AttrCache κ :=
  ⟨(key, text) :: c.entries, { c.stats with computed := c.stats.computed + 1 }⟩

def hit (c : AttrCache κ) : AttrCache κ :=
  { c with stats := { c.stats with hits := c.stats.hits + 1 } }

theorem get?_add (c : AttrCache κ) (key key' : AttrKey κ) (text : String) :
    (c.add key text).get? key' = if key' = key then some text else c.get? key' := by
  by_cases h : key' = key
  · subst h
    simp [add, get?]
  · have hbeq : (key' == key) = false := beq_false_of_ne h
    simp only [add, get?, List.lookup_cons, hbeq, if_neg h]

theorem find_of_none {c : AttrCache κ} {key : AttrKey κ} (h : c.get? key = none) :
    c.find key = (none, c) := by
  rw [find, h]

theorem find_of_some {c : AttrCache κ} {key : AttrKey κ} {text : String}
    (h : c.get? key = some text) : c.find key = (some text, c.hit) := by
  rw [find, h]
  rfl

theorem store_of_none {c : AttrCache κ} {key : AttrKey κ} (h : c.get? key = none) (text : String) :
    c.store key text = (text, c.add key text) := by
  rw [store, h]
  rfl

/-- What is stored for a key stays; only the count goes up. -/
theorem store_of_some {c : AttrCache κ} {key : AttrKey κ} {kept : String} (h : c.get? key = some kept)
    (text : String) :
    c.store key text =
      (kept, { c with stats := { c.stats with computed := c.stats.computed + 1 } }) := by
  rw [store, h]

end AttrCache

/-! ### Fresh and untouched slots -/

section Slots

variable (keyOf : Place → κ) (nodes : Set Place)

/-- Nothing is stored for the slots. -/
def Fresh (S : Set Slot) (c : AttrCache κ) : Prop :=
  ∀ k ∈ S, k.node ∈ nodes → c.get? (k.under keyOf) = none

/-- What is stored outside of the slots has stayed. -/
def Untouched (S : Set Slot) (c c' : AttrCache κ) : Prop :=
  ∀ k, k ∉ S → k.node ∈ nodes → c'.get? (k.under keyOf) = c.get? (k.under keyOf)

variable {keyOf nodes} {S S' : Set Slot} {c c' c'' : AttrCache κ}

theorem Fresh.mono (hS : S ⊆ S') (h : Fresh keyOf nodes S' c) : Fresh keyOf nodes S c :=
  fun k hk => h k (hS hk)

theorem fresh_empty : Fresh keyOf nodes S AttrCache.empty := fun _ _ _ => rfl

theorem Untouched.refl : Untouched keyOf nodes S c c := fun _ _ _ => rfl

theorem Untouched.mono (hS : S ⊆ S') (h : Untouched keyOf nodes S c c') :
    Untouched keyOf nodes S' c c' :=
  fun k hk => h k fun hmem => hk (hS hmem)

theorem Untouched.trans (h : Untouched keyOf nodes S c c') (h' : Untouched keyOf nodes S' c' c'') :
    Untouched keyOf nodes (S ∪ S') c c'' := by
  intro k hk hnode
  have hleft : k ∉ S := fun hmem => hk (Or.inl hmem)
  have hright : k ∉ S' := fun hmem => hk (Or.inr hmem)
  rw [h' k hright hnode, h k hleft hnode]

/-- A run leaves the slots of the next one fresh. -/
theorem Untouched.fresh (h : Untouched keyOf nodes S c c') (hdisjoint : Disjoint S S')
    (hfresh : Fresh keyOf nodes S' c) : Fresh keyOf nodes S' c' := by
  intro k hk hnode
  rw [h k (Set.disjoint_right.mp hdisjoint hk) hnode]
  exact hfresh k hk hnode

omit [DecidableEq κ] in
theorem under_inj (hinj : Set.InjOn keyOf nodes) {k k' : Slot} (hk : k.node ∈ nodes)
    (hk' : k'.node ∈ nodes) (h : k.under keyOf = k'.under keyOf) : k = k' := by
  obtain ⟨node, field, access⟩ := k
  obtain ⟨node', field', access'⟩ := k'
  simp only [AttrKey.under, AttrKey.mk.injEq] at h
  obtain ⟨hnode, rfl, rfl⟩ := h
  obtain rfl : node = node' := hinj hk hk' hnode
  rfl

theorem untouched_add (hinj : Set.InjOn keyOf nodes) {k : Slot} (hk : k.node ∈ nodes)
    (text : String) : Untouched keyOf nodes {k} c (c.add (k.under keyOf) text) := by
  intro k' hk' hnode
  have hne : k'.under keyOf ≠ k.under keyOf := fun heq => hk' (under_inj hinj hnode hk heq)
  rw [AttrCache.get?_add, if_neg hne]

end Slots

/-! ### Reading a field -/

/-- An outcome whose text, if there is one, is stored under a key. -/
def Outcome.stored (o : Outcome κ String) (key : AttrKey κ) : Outcome κ String :=
  match o.result with
  | .error _ => o
  | .ok text => { o with renderer := ⟨o.renderer.scopes, o.renderer.cache.add key text⟩ }

namespace Outcome

variable (o : Outcome κ String) (key : AttrKey κ)

omit [DecidableEq κ] in
@[simp]
theorem stored_result : (o.stored key).result = o.result := by
  unfold stored
  split <;> simp [*]

omit [DecidableEq κ] in
@[simp]
theorem stored_scopes : (o.stored key).renderer.scopes = o.renderer.scopes := by
  unfold stored
  split <;> rfl

omit [DecidableEq κ] in
@[simp]
theorem stored_events : (o.stored key).events = o.events := by
  unfold stored
  split <;> rfl

theorem get?_stored {text : String} (h : o.result = .ok text) :
    (o.stored key).renderer.cache.get? key = some text := by
  simp only [stored, h, AttrCache.get?_add, if_true]

theorem untouched_stored {keyOf : Place → κ} {nodes : Set Place} (hinj : Set.InjOn keyOf nodes)
    {k : Slot} (hk : k.node ∈ nodes) :
    Untouched keyOf nodes {k} o.renderer.cache (o.stored (k.under keyOf)).renderer.cache := by
  unfold stored
  split
  · exact Untouched.refl
  · exact untouched_add hinj hk _

end Outcome

namespace Site

variable {site : Site κ} {f : Field} {r : Renderer κ}

theorem attr_of_missing {v : FieldValue (Render κ String) (Render κ String)}
    (hv : site.fields.lookup f = some v) (hmiss : r.cache.get? ⟨site.key, f, .rendered⟩ = none)
    (hafter : (v.render r).renderer.cache.get? ⟨site.key, f, .rendered⟩ = none) :
    site.attr f r = (v.render r).stored ⟨site.key, f, .rendered⟩ := by
  have hfind : Render.find ⟨site.key, f, .rendered⟩ r = ⟨.ok none, r, []⟩ := by
    rw [Render.find, AttrCache.find_of_none hmiss]
  rw [attr, Render.bind_of_ok (a := none) (by rw [hfind]), hfind]
  simp only [hv, List.nil_append, Outcome.stored]
  cases hresult : (v.render r).result with
  | error e =>
    rw [Render.bind_of_error hresult]
    show Outcome.mk (.error e) (v.render r).renderer (v.render r).events = v.render r
    rw [← hresult]
  | ok text =>
    rw [Render.bind_of_ok hresult, Render.store, AttrCache.store_of_none hafter]
    simp

theorem attr_of_stored {text : String} (h : r.cache.get? ⟨site.key, f, .rendered⟩ = some text) :
    site.attr f r = ⟨.ok text, ⟨r.scopes, r.cache.hit⟩, []⟩ := by
  have hfind : Render.find ⟨site.key, f, .rendered⟩ r =
      ⟨.ok (some text), ⟨r.scopes, r.cache.hit⟩, []⟩ := by
    rw [Render.find, AttrCache.find_of_some h]
  rw [attr, Render.bind_of_ok (a := some text) (by rw [hfind]), hfind]
  rfl

/-- The name in a field is stored when it is read for the first time. -/
theorem rawAttr_of_missing {text : String} (hv : site.fields.lookup f = some (.ident text))
    (hmiss : r.cache.get? ⟨site.key, f, .raw⟩ = none) :
    site.rawAttr f r = (⟨.ok text, r, []⟩ : Outcome κ String).stored ⟨site.key, f, .raw⟩ := by
  have hfind : Render.find ⟨site.key, f, .raw⟩ r = ⟨.ok none, r, []⟩ := by
    rw [Render.find, AttrCache.find_of_none hmiss]
  rw [rawAttr, Render.bind_of_ok (a := none) (by rw [hfind]), hfind]
  simp only [hv]
  rw [Render.store, AttrCache.store_of_none hmiss]
  rfl

/-- The second of two reads in a row finds the text that the first one stored. -/
theorem attrTwice_of_ok {text : String} (hresult : (site.attr f r).result = .ok text)
    (hfound : (site.attr f r).renderer.cache.get? ⟨site.key, f, .rendered⟩ = some text) :
    (do
        let first ← site.attr f
        let second ← site.attr f
        return (first, second) : Render κ (String × String)) r =
      ⟨.ok (text, text), ⟨(site.attr f r).renderer.scopes, (site.attr f r).renderer.cache.hit⟩,
        (site.attr f r).events⟩ := by
  have hsecond := attr_of_stored hfound
  rw [Render.bind_of_ok hresult, Render.bind_of_ok (a := text) (by rw [hsecond]), hsecond]
  simp

variable {keyOf : Place → κ} {nodes : Set Place} {S : Set Slot} {p : Place}

/-- Reading a fresh field renders it and stores its text. -/
theorem attr_of_fresh {v : FieldValue (Render κ String) (Render κ String)} (hp : p ∈ nodes)
    (hkey : site.key = keyOf p) (hv : site.fields.lookup f = some v)
    (hnot : ⟨p, f, .rendered⟩ ∉ S)
    (hfresh : Fresh keyOf nodes (insert ⟨p, f, .rendered⟩ S) r.cache)
    (hkept : Untouched keyOf nodes S r.cache (v.render r).renderer.cache) :
    site.attr f r = (v.render r).stored ⟨site.key, f, .rendered⟩ := by
  have hmiss : r.cache.get? ⟨site.key, f, .rendered⟩ = none := by
    rw [hkey]
    exact hfresh ⟨p, f, .rendered⟩ (Set.mem_insert _ _) hp
  have hsame : (v.render r).renderer.cache.get? ⟨keyOf p, f, .rendered⟩ =
      r.cache.get? ⟨keyOf p, f, .rendered⟩ := hkept ⟨p, f, .rendered⟩ hnot hp
  refine attr_of_missing hv hmiss ?_
  rw [hkey, hsame, ← hkey, hmiss]

/-- After that its text is found. -/
theorem get?_of_attr {o : Outcome κ String} {text : String}
    (hattr : site.attr f r = o.stored ⟨site.key, f, .rendered⟩)
    (hresult : (site.attr f r).result = .ok text) :
    (site.attr f r).renderer.cache.get? ⟨site.key, f, .rendered⟩ = some text := by
  rw [hattr] at hresult ⊢
  rw [Outcome.stored_result] at hresult
  exact o.get?_stored _ hresult

theorem rawAttr_of_fresh {text : String} (hp : p ∈ nodes) (hkey : site.key = keyOf p)
    (hv : site.fields.lookup f = some (.ident text))
    (hfresh : Fresh keyOf nodes {⟨p, f, .raw⟩} r.cache) :
    site.rawAttr f r =
      (⟨.ok text, r, []⟩ : Outcome κ String).stored (AttrKey.under keyOf ⟨p, f, .raw⟩) := by
  have hmiss : r.cache.get? ⟨site.key, f, .raw⟩ = none := by
    rw [hkey]
    exact hfresh ⟨p, f, .raw⟩ rfl hp
  rw [rawAttr_of_missing hv hmiss, hkey]
  rfl

theorem untouched_attr (hinj : Set.InjOn keyOf nodes) (hp : p ∈ nodes)
    (hkey : site.key = keyOf p) {o : Outcome κ String}
    (hkept : Untouched keyOf nodes S r.cache o.renderer.cache) :
    Untouched keyOf nodes (insert ⟨p, f, .rendered⟩ S) r.cache
      (o.stored ⟨site.key, f, .rendered⟩).renderer.cache := by
  have hown := o.untouched_stored hinj (k := ⟨p, f, .rendered⟩) hp
  rw [hkey, Set.insert_eq, Set.union_comm]
  exact hkept.trans hown

end Site

end ScriptTree
