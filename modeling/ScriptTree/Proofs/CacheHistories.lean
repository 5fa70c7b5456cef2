/-
  ScriptTree/Proofs/CacheHistories.lean
  =====================================
  **The attribute cache after any history.**  Texts may be looked up and stored in any order, for the
  same key again and again, and the cache may be cleared in between.  What was stored since it was
  cleared last, in order, tells everything about it (`cache_follows_history`): a look-up finds the
  first text stored for its key, all stores are counted, and the look-ups that found something are
  counted too.  The two ways to read a field have keys of their own and never meet.

  One operation adds itself to what a cache is a record of (`Records.perform`); a history is followed
  from there.
-/
import Mathlib.Data.Finset.Card
import Mathlib.Data.List.DropRight
import ScriptTree.Proofs.Slots

namespace ScriptTree

variable {κ : Type}

/-- What can be done to a cache.  The key of a look-up or a store says which field of which node is
    meant, and in which way it is read. -/
inductive CacheOp (κ : Type) where
  | clear
  | find (key : AttrKey κ)
  | store (key : AttrKey κ) (text : String)
  deriving DecidableEq

/-! ### Histories by themselves -/

namespace CacheOp

def stored? : CacheOp κ → Option (AttrKey κ × String)
  | .store key text => some (key, text)
  | .clear | .find _ => none

/-- What the operations store, in order. -/
def stores (ops : List (CacheOp κ)) : List (AttrKey κ × String) := ops.filterMap stored?

variable [DecidableEq κ]

/-- Whether the operation looks up a key for which something has been stored earlier. -/
def finds (earlier : List (CacheOp κ)) : CacheOp κ → Bool
  | .find key => ((stores earlier).lookup key).isSome
  | .clear | .store .. => false

/-- The number of look-ups that find what was stored earlier, or stored by an operation before them. -/
def hitsAmong (earlier : List (CacheOp κ)) : List (CacheOp κ) → Nat
  | [] => 0
  | op :: later => (op.finds earlier).toNat + hitsAmong (earlier ++ [op]) later

/-- The operations since the cache was cleared last. -/
def sinceClear (history : List (CacheOp κ)) : List (CacheOp κ) := history.rtakeWhile (· ≠ .clear)

omit [DecidableEq κ] in
theorem stores_append (ops more : List (CacheOp κ)) :
    stores (ops ++ more) = stores ops ++ stores more :=
  List.filterMap_append

theorem lookup_stores_append (key : AttrKey κ) (ops more : List (CacheOp κ)) :
    (stores (ops ++ more)).lookup key = ((stores ops).lookup key).or ((stores more).lookup key) := by
  rw [stores_append, List.lookup_append]

theorem hitsAmong_append (earlier ops more : List (CacheOp κ)) :
    hitsAmong earlier (ops ++ more) = hitsAmong earlier ops + hitsAmong (earlier ++ ops) more := by
  induction ops generalizing earlier with
  | nil => simp [hitsAmong]
  | cons op ops ih =>
    rw [List.cons_append, hitsAmong, hitsAmong, ih, List.append_assoc, List.singleton_append,
      Nat.add_assoc]

theorem sinceClear_append {later : List (CacheOp κ)} (h : .clear ∉ later)
    (history : List (CacheOp κ)) : sinceClear (history ++ later) = sinceClear history ++ later := by
  have hlater : ∀ op ∈ later.reverse, decide (op ≠ CacheOp.clear) = true := by
    intro op hop
    rw [decide_eq_true_eq]
    rintro rfl
    exact h (List.mem_reverse.mp hop)
  rw [sinceClear, List.rtakeWhile, List.reverse_append, List.takeWhile_append_of_pos hlater,
    List.reverse_append, List.reverse_reverse]
  rfl

theorem sinceClear_clear (history : List (CacheOp κ)) : sinceClear (history ++ [.clear]) = [] := by
  simp [sinceClear, List.rtakeWhile]

end CacheOp

open CacheOp

namespace AttrCache

variable [DecidableEq κ]

/-- What an operation answers, and the cache behind it. -/
def perform (c : AttrCache κ) : CacheOp κ → Option String × AttrCache κ
  | .clear => (none, c.clear)
  | .find key => c.find key
  | .store key text => (some (c.store key text).1, (c.store key text).2)

/-- A cache that was empty at first, after some operations. -/
def after (history : List (CacheOp κ)) : AttrCache κ :=
  history.foldl (fun c op => (c.perform op).2) .empty

theorem after_concat (history : List (CacheOp κ)) (op : CacheOp κ) :
    after (history ++ [op]) = ((after history).perform op).2 := by
  rw [after, List.foldl_append]
  rfl

/-- The cache holds and counts what comes of the operations, if it was empty before them and none of
    them clears it. -/
structure Records (c : AttrCache κ) (ops : List (CacheOp κ)) : Prop where
  texts : ∀ key, c.get? key = (stores ops).lookup key
  keys : (c.entries.map Prod.fst).Nodup
  computed : c.stats.computed = (stores ops).length
  hits : c.stats.hits = hitsAmong [] ops

theorem records_empty : (empty : AttrCache κ).Records [] :=
  ⟨fun _ => rfl, List.nodup_nil, rfl, rfl⟩

variable {c : AttrCache κ} {ops : List (CacheOp κ)}

theorem Records.find (h : c.Records ops) (key : AttrKey κ) :
    (c.find key).2.Records (ops ++ [.find key]) := by
  have hstores : stores (ops ++ [.find key]) = stores ops := by simp [stores, stored?]
  have hhits : hitsAmong [] (ops ++ [.find key]) =
      c.stats.hits + (c.get? key).isSome.toNat := by
    rw [hitsAmong_append, ← h.hits, h.texts]
    rfl
  cases hget : c.get? key with
  | none =>
    rw [find_of_none hget]
    rw [hget] at hhits
    exact ⟨hstores ▸ h.texts, h.keys, hstores ▸ h.computed, hhits.symm⟩
  | some text =>
    rw [find_of_some hget]
    rw [hget] at hhits
    exact ⟨hstores ▸ h.texts, h.keys, hstores ▸ h.computed, hhits.symm⟩

theorem Records.store (h : c.Records ops) (key : AttrKey κ) (text : String) :
    (c.store key text).2.Records (ops ++ [.store key text]) := by
  have hstores : stores (ops ++ [.store key text]) = stores ops ++ [(key, text)] := by
    simp [stores, stored?]
  have hlookup : ∀ key', (stores (ops ++ [.store key text])).lookup key' =
      (c.get? key').or (if key' = key then some text else none) := by
    intro key'
    rw [hstores, List.lookup_append, h.texts]
    by_cases hkey : key' = key
    · simp [hkey]
    · simp [List.lookup_cons, beq_false_of_ne hkey, hkey]
  have hcomputed : c.stats.computed + 1 = (stores (ops ++ [.store key text])).length := by
    rw [hstores, h.computed, List.length_append, List.length_singleton]
  have hhits : c.stats.hits = hitsAmong [] (ops ++ [.store key text]) := by
    rw [hitsAmong_append, ← h.hits]
    rfl
  cases hget : c.get? key with
  | none =>
    rw [store_of_none hget]
    refine ⟨fun key' => ?_, List.nodup_cons.mpr ⟨lookup_eq_none_iff_not_mem.mp hget, h.keys⟩,
      hcomputed, hhits⟩
    rw [get?_add, hlookup]
    by_cases hkey : key' = key
    · rw [if_pos hkey, if_pos hkey, hkey, hget]
      rfl
    · rw [if_neg hkey, if_neg hkey, Option.or_none]
  | some kept =>
    rw [store_of_some hget]
    refine ⟨fun key' => ?_, h.keys, hcomputed, hhits⟩
    rw [hlookup]
    by_cases hkey : key' = key
    · rw [hkey]
      exact hget.trans (congrArg (Option.or · _) hget).symm
    · rw [if_neg hkey, Option.or_none]
      rfl

/-- An operation that does not clear the cache adds itself to the record. -/
theorem Records.perform (h : c.Records ops) {op : CacheOp κ} (hop : op ≠ .clear) :
    (c.perform op).2.Records (ops ++ [op]) := by
  cases op with
  | clear => exact absurd rfl hop
  | find key => exact h.find key
  | store key text => exact h.store key text

theorem records_after (history : List (CacheOp κ)) : (after history).Records (sinceClear history) := by
  induction history using List.reverseRecOn with
  | nil => exact records_empty
  | append_singleton history op ih =>
    rw [after_concat]
    by_cases hop : op = .clear
    · subst hop
      rw [sinceClear_clear]
      exact records_empty
    · rw [sinceClear_append (by simpa using Ne.symm hop)]
      exact ih.perform hop

theorem Records.size_eq (h : c.Records ops) :
    c.size = ((stores ops).map Prod.fst).toFinset.card := by
  have hkeys : (c.entries.map Prod.fst).toFinset = ((stores ops).map Prod.fst).toFinset := by
    ext key
    rw [List.mem_toFinset, List.mem_toFinset, ← not_iff_not, ← lookup_eq_none_iff_not_mem,
      ← lookup_eq_none_iff_not_mem, ← h.texts]
    rfl
  rw [← hkeys, List.toFinset_card_of_nodup h.keys, List.length_map]
  rfl

end AttrCache

/-- **The attribute cache after any history.**  A look-up finds the first text that was stored for its
    key since the cache was cleared, and nothing if there was none.  A store answers with the text that
    every look-up of its key finds from then on, until the cache is cleared.  All stores are counted
    and all look-ups that found a text, and there are as many texts as keys that were stored. -/
theorem cache_follows_history [DecidableEq κ] (history : List (CacheOp κ)) :
    let c := AttrCache.after history
    let recent := sinceClear history
    (∀ key, (c.perform (.find key)).1 = (stores recent).lookup key) ∧
    (∀ key text later, .clear ∉ later →
      ((AttrCache.after (history ++ .store key text :: later)).perform (.find key)).1 =
        (c.perform (.store key text)).1) ∧
    c.stats.computed = (stores recent).length ∧
    c.stats.hits = hitsAmong [] recent ∧
    c.size = ((stores recent).map Prod.fst).toFinset.card ∧
    c.size ≤ c.stats.computed := by
  intro c recent
  have hrecords : c.Records recent := AttrCache.records_after history
  have hfind : ∀ (d : AttrCache κ) key, (d.perform (.find key)).1 = d.get? key := by
    intro d key
    cases hget : d.get? key with
    | none => exact congrArg Prod.fst (AttrCache.find_of_none hget)
    | some text => exact congrArg Prod.fst (AttrCache.find_of_some hget)
  refine ⟨fun key => (hfind c key).trans (hrecords.texts key), ?_, hrecords.computed, hrecords.hits,
    hrecords.size_eq, ?_⟩
  · intro key text later hlater
    have hops : .clear ∉ CacheOp.store key text :: later := by simpa using hlater
    have hafter := AttrCache.records_after (history ++ .store key text :: later)
    rw [sinceClear_append hops] at hafter
    rw [hfind, hafter.texts, lookup_stores_append, ← hrecords.texts]
    cases hget : c.get? key with
    | none =>
      rw [AttrCache.perform, AttrCache.store_of_none hget, Option.none_or]
      simp [stores, stored?]
    | some kept =>
      rw [AttrCache.perform, AttrCache.store_of_some hget]
      rfl
  · rw [hrecords.size_eq, hrecords.computed]
    exact (List.toFinset_card_le _).trans_eq (List.length_map _)

/-- Both ways to read a field, a second store for one of them, and a look-up before the cache was
    cleared. -/
theorem cache_follows_history_rewritten :
    let rendered : AttrKey Nat := ⟨0, .id, .rendered⟩
    let raw : AttrKey Nat := ⟨0, .id, .raw⟩
    let history : List (CacheOp Nat) := [.store raw "b", .find raw, .clear, .store rendered "\"a\""]
    .clear ∉ [CacheOp.store raw "a", .find rendered, .store rendered "c"] ∧
    ((AttrCache.after history).perform (.find raw)).1 = none ∧
    ((AttrCache.after (history ++ .store rendered "x" ::
      [.store raw "a", .find rendered, .store rendered "c"])).perform (.find rendered)).1 =
        some "\"a\"" ∧
    (AttrCache.after history).stats = ⟨1, 0⟩ := by
  intro rendered raw history
  have hlater : .clear ∉ [CacheOp.store raw "a", .find rendered, .store rendered "c"] := by decide
  obtain ⟨hfind, hstore, hcomputed, hhits, -⟩ := cache_follows_history history
  have hstats : (AttrCache.after history).stats = ⟨1, 0⟩ := by
    calc (AttrCache.after history).stats
        = ⟨(AttrCache.after history).stats.computed, (AttrCache.after history).stats.hits⟩ := rfl
      _ = ⟨1, 0⟩ := by
        rw [hcomputed, hhits]
        rfl
  exact ⟨hlater, hfind raw, hstore rendered "x" _ hlater, hstats⟩

end ScriptTree
