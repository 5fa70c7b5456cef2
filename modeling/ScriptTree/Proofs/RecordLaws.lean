/-
  ScriptTree/Proofs/RecordLaws.lean
  =================================
  **Which members a record is read from.**  A reader `Reads` a list of members as a record; readers of
  single fields are put together by `Reads.map` and `Reads.seq`, so the statement for a whole record is
  assembled from one fact per field, in the order of the fields.  For that a reader must leave to the
  next one what is not its own, which is the second half of `Reads`.
-/
import ScriptTree.Tree.Record

namespace ScriptTree

namespace RecordReader

variable {α β : Type}

/-- The reader makes `a` of these members, and passes over every member of another name. -/
structure Reads (r : RecordReader α) (members : List (String × Json)) (a : α) : Prop where
  read : r.read members = .ok a
  ignores : ∀ key ∉ members.map Prod.fst, ∀ j s, r.take? key j s = none

theorem reads_pure (a : α) : (pure a : RecordReader α).Reads [] a := ⟨rfl, fun _ _ _ _ => rfl⟩

theorem reads_required {name : String} {decode : Json → Except Mismatch α} {j : Json} {a : α}
    (h : decode j = .ok a) : (required name decode).Reads [(name, j)] a := by
  constructor
  · simp [read, feed, required, fill, h, Except.map, bind, Except.bind]
  · intro key hkey j s
    exact if_neg (by simpa using hkey)

theorem reads_withDefault {name : String} {decode : Json → Except Mismatch α} {default a : α}
    {j : Json} (h : decode j = .ok a) : (withDefault name decode default).Reads [(name, j)] a := by
  constructor
  · simp [read, feed, withDefault, fill, h, Except.map, bind, Except.bind]
  · intro key hkey j s
    exact if_neg (by simpa using hkey)

theorem read_eq_ok_iff {r : RecordReader α} {members : List (String × Json)} {a : α} :
    r.read members = .ok a ↔ ∃ s, r.feed members r.start = .ok s ∧ r.finish s = .ok a := by
  rw [read]
  cases r.feed members r.start with
  | error e => simp [bind, Except.bind]
  | ok s => simp [bind, Except.bind]

/-- What becomes of the first member: it is passed over or taken. -/
theorem feed_cons_eq_ok_iff {r : RecordReader α} {key : String} {j : Json}
    {members : List (String × Json)} {s t : r.State} :
    r.feed ((key, j) :: members) s = .ok t ↔
      r.take? key j s = none ∧ r.feed members s = .ok t ∨
        ∃ s', r.take? key j s = some (.ok s') ∧ r.feed members s' = .ok t := by
  rw [feed]
  cases r.take? key j s with
  | none => simp
  | some step => cases step <;> simp

theorem feed_append {r : RecordReader α} {front back : List (String × Json)} {s t u : r.State}
    (hfront : r.feed front s = .ok t) (hback : r.feed back t = .ok u) :
    r.feed (front ++ back) s = .ok u := by
  induction front generalizing s with
  | nil =>
    cases hfront
    exact hback
  | cons m front ih =>
    obtain ⟨key, j⟩ := m
    rcases feed_cons_eq_ok_iff.mp hfront with ⟨hskip, hrest⟩ | ⟨s', htake, hrest⟩
    · exact feed_cons_eq_ok_iff.mpr (Or.inl ⟨hskip, ih hrest⟩)
    · exact feed_cons_eq_ok_iff.mpr (Or.inr ⟨s', htake, ih hrest⟩)

theorem feed_map {r : RecordReader α} {members : List (String × Json)} {s t : r.State}
    (h : r.feed members s = .ok t) (f : α → β) : (f <$> r).feed members s = .ok t := by
  induction members generalizing s with
  | nil => exact h
  | cons m members ih =>
    obtain ⟨key, j⟩ := m
    rcases feed_cons_eq_ok_iff.mp h with ⟨hskip, hrest⟩ | ⟨s', htake, hrest⟩
    · exact feed_cons_eq_ok_iff.mpr (Or.inl ⟨hskip, ih hrest⟩)
    · exact feed_cons_eq_ok_iff.mpr (Or.inr ⟨s', htake, ih hrest⟩)

theorem Reads.map {r : RecordReader α} {members : List (String × Json)} {a : α}
    (h : r.Reads members a) (f : α → β) : (f <$> r).Reads members (f a) := by
  obtain ⟨s, hfeed, hfinish⟩ := read_eq_ok_iff.mp h.read
  refine ⟨read_eq_ok_iff.mpr ⟨s, feed_map hfeed f, ?_⟩, h.ignores⟩
  change (r.finish s).map f = _
  rw [hfinish]
  rfl

section Seq

variable {r : RecordReader (α → β)} {q : RecordReader α}

theorem take?_seq (key : String) (j : Json) (s : r.State) (t : q.State) :
    (r <*> q).take? key j (s, t) =
      ((r.take? key j s).map (Except.map fun s' => (s', t))).or
        ((q.take? key j t).map (Except.map fun t' => (s, t'))) := by
  simp only [Seq.seq]
  cases r.take? key j s <;> rfl

/-- Members that the second reader passes over go to the first one. -/
theorem feed_seq_left {members : List (String × Json)} {s s' : r.State} {t : q.State}
    (hq : ∀ m ∈ members, q.take? m.1 m.2 t = none) (h : r.feed members s = .ok s') :
    (r <*> q).feed members (s, t) = .ok (s', t) := by
  induction members generalizing s with
  | nil =>
    cases h
    rfl
  | cons m members ih =>
    obtain ⟨key, j⟩ := m
    have hm : q.take? key j t = none := hq (key, j) List.mem_cons_self
    have hrest := fun s => @ih s fun k hk => hq k (List.mem_cons_of_mem _ hk)
    rcases feed_cons_eq_ok_iff.mp h with ⟨hskip, h⟩ | ⟨s₁, htake, h⟩
    · refine feed_cons_eq_ok_iff.mpr (Or.inl ⟨?_, hrest s h⟩)
      rw [take?_seq, hskip, hm]
      rfl
    · refine feed_cons_eq_ok_iff.mpr (Or.inr ⟨(s₁, t), ?_, hrest s₁ h⟩)
      rw [take?_seq, htake]
      rfl

/-- Members that the first reader passes over go to the second one. -/
theorem feed_seq_right {members : List (String × Json)} {s : r.State} {t t' : q.State}
    (hr : ∀ m ∈ members, r.take? m.1 m.2 s = none) (h : q.feed members t = .ok t') :
    (r <*> q).feed members (s, t) = .ok (s, t') := by
  induction members generalizing t with
  | nil =>
    cases h
    rfl
  | cons m members ih =>
    obtain ⟨key, j⟩ := m
    have hm : r.take? key j s = none := hr (key, j) List.mem_cons_self
    have hrest := fun t => @ih t fun k hk => hr k (List.mem_cons_of_mem _ hk)
    rcases feed_cons_eq_ok_iff.mp h with ⟨hskip, h⟩ | ⟨t₁, htake, h⟩
    · refine feed_cons_eq_ok_iff.mpr (Or.inl ⟨?_, hrest t h⟩)
      rw [take?_seq, hm, hskip]
      rfl
    · refine feed_cons_eq_ok_iff.mpr (Or.inr ⟨(s, t₁), ?_, hrest t₁ h⟩)
      rw [take?_seq, hm, htake]
      rfl

/-- A reader that is put before another takes its own members from the front. -/
theorem Reads.seq {front back : List (String × Json)} {f : α → β} {a : α} (hr : r.Reads front f)
    (hq : q.Reads back a) (hapart : ∀ m ∈ front, ∀ n ∈ back, m.1 ≠ n.1) :
    (r <*> q).Reads (front ++ back) (f a) := by
  obtain ⟨s, hfeed, hfinish⟩ := read_eq_ok_iff.mp hr.read
  obtain ⟨t, hfeed', hfinish'⟩ := read_eq_ok_iff.mp hq.read
  constructor
  · have hfront : (r <*> q).feed front (r.start, q.start) = .ok (s, q.start) := by
      refine feed_seq_left (fun m hm => hq.ignores m.1 (fun hmem => ?_) m.2 _) hfeed
      obtain ⟨n, hn, hkey⟩ := List.mem_map.mp hmem
      exact hapart m hm n hn hkey.symm
    have hback : (r <*> q).feed back (s, q.start) = .ok (s, t) := by
      refine feed_seq_right (fun n hn => hr.ignores n.1 (fun hmem => ?_) n.2 _) hfeed'
      obtain ⟨m, hm, hkey⟩ := List.mem_map.mp hmem
      exact hapart m hm n hn hkey
    refine read_eq_ok_iff.mpr ⟨(s, t), feed_append hfront hback, ?_⟩
    change (r.finish s >>= fun f => q.finish t >>= fun a => pure (f a)) = _
    rw [hfinish, hfinish']
    rfl
  · intro key hkey j state
    rw [List.map_append, List.mem_append, not_or] at hkey
    obtain ⟨s, t⟩ := state
    rw [take?_seq, hr.ignores key hkey.1, hq.ignores key hkey.2]
    rfl

end Seq

end RecordReader

end ScriptTree
