/-
  ScriptTree/Proofs/RecordFields.lean
  ===================================
  **A record is read field by field.**  A reader goes through the members of an object in the order
  written, and which error it gives depends on that order.  Whether it succeeds and with what does
  not: a field is made from the values that its key has in the object, and from nothing else
  (`sole`).  Readers put together by `<$>` and `<*>` succeed exactly if each of them succeeds on all
  the members (`read_seq`).  The location and the tag of a node are such fields too.
-/
import ScriptTree.Proofs.Outcomes
import ScriptTree.Proofs.RecordLaws
import ScriptTree.Tree.Decode
import Mathlib.Data.List.Perm.Basic

namespace ScriptTree

open Decoder

/-! ### The values of a key -/

def valuesAt (key : String) (ms : List (String × Json)) : List Json :=
  (ms.filter fun m => m.1 = key).map Prod.snd

/-- The members with other keys. -/
def others (key : String) (ms : List (String × Json)) : List (String × Json) :=
  ms.filter fun m => m.1 ≠ key

@[simp]
theorem valuesAt_nil (key : String) : valuesAt key [] = [] := rfl

@[simp]
theorem valuesAt_cons_self (key : String) (j : Json) (ms : List (String × Json)) :
    valuesAt key ((key, j) :: ms) = j :: valuesAt key ms := by
  simp [valuesAt]

theorem valuesAt_cons_of_ne {key k : String} (h : k ≠ key) (j : Json) (ms : List (String × Json)) :
    valuesAt key ((k, j) :: ms) = valuesAt key ms := by
  simp [valuesAt, h]

theorem valuesAt_others {key k : String} (h : k ≠ key) (ms : List (String × Json)) :
    valuesAt k (others key ms) = valuesAt k ms := by
  rw [valuesAt, others, List.filter_filter]
  congr 1
  apply List.filter_congr
  intro m _
  by_cases hm : m.1 = k
  · simp [hm, h]
  · simp [hm]

theorem mem_of_mem_valuesAt {key : String} {j : Json} {ms : List (String × Json)}
    (h : j ∈ valuesAt key ms) : (key, j) ∈ ms := by
  obtain ⟨⟨k, v⟩, hm, rfl⟩ := List.mem_map.mp h
  obtain ⟨hmem, hk⟩ := List.mem_filter.mp hm
  obtain rfl : k = key := by simpa using hk
  exact hmem

theorem valuesAt_eq_nil {key : String} {ms : List (String × Json)} (h : key ∉ ms.map Prod.fst) :
    valuesAt key ms = [] := by
  rw [List.eq_nil_iff_forall_not_mem]
  intro j hj
  exact h (List.mem_map_of_mem (f := Prod.fst) (mem_of_mem_valuesAt hj))

theorem lookup_eq_head?_valuesAt (key : String) (ms : List (String × Json)) :
    ms.lookup key = (valuesAt key ms).head? := by
  induction ms with
  | nil => rfl
  | cons m ms ih =>
    obtain ⟨k, j⟩ := m
    by_cases hk : k = key
    · subst hk
      simp
    · have hbeq : (key == k) = false := beq_false_of_ne (Ne.symm hk)
      rw [valuesAt_cons_of_ne hk, ← ih, List.lookup_cons, hbeq]

theorem valuesAt_perm {key : String} {ms ms' : List (String × Json)} (h : ms.Perm ms') :
    (valuesAt key ms).Perm (valuesAt key ms') :=
  (h.filter _).map _

/-- What a field is made of: of no value nothing, of one value what it is read as.  A second value
    is refused. -/
def sole {α : Type} (decode : Decoder α) : Option α → List Json → Option (Option α)
  | found, [] => some found
  | some _, _ :: _ => none
  | none, j :: rest => (decode j).toOption.bind fun a => sole decode (some a) rest

section Sole

variable {α : Type} (decode : Decoder α)

theorem sole_nil : sole decode none [] = some none := rfl

theorem sole_one (j : Json) : sole decode none [j] = (decode j).toOption.map some := by
  rw [sole]
  cases (decode j).toOption with
  | none => rfl
  | some a => rfl

theorem sole_many {js : List Json} (h : 2 ≤ js.length) : sole decode none js = none := by
  rcases js with - | ⟨j, - | ⟨k, rest⟩⟩
  · cases h
  · simp at h
  · rw [sole]
    cases (decode j).toOption with
    | none => rfl
    | some a => rfl

end Sole

/-! ### Readers -/

namespace RecordReader

variable {α β : Type}

section Feed

variable {r : RecordReader α} {key : String} {j : Json} {s : r.State}

theorem feed_of_skip (h : r.take? key j s = none) (ms : List (String × Json)) :
    r.feed ((key, j) :: ms) s = r.feed ms s := by
  rw [feed, h]

theorem feed_of_take {s' : r.State} (h : r.take? key j s = some (.ok s'))
    (ms : List (String × Json)) : r.feed ((key, j) :: ms) s = r.feed ms s' := by
  rw [feed, h]

theorem feed_of_refuse {e : Mismatch} (h : r.take? key j s = some (.error e))
    (ms : List (String × Json)) : r.feed ((key, j) :: ms) s = .error e := by
  rw [feed, h]

end Feed

/-- A reader of one field; required fields and fields with a default are such readers. -/
def single (name : String) (decode : Decoder α) (finish : Option α → Except Mismatch β) :
    RecordReader β where
  State := Option α
  start := none
  take? key j s := if key = name then some (fill name decode j s) else none
  finish := finish

theorem feed_single (name : String) (decode : Decoder α) (finish : Option α → Except Mismatch β)
    (ms : List (String × Json)) (s : Option α) :
    ((single name decode finish).feed ms s).toOption = sole decode s (valuesAt name ms) := by
  induction ms generalizing s with
  | nil => rfl
  | cons m ms ih =>
    obtain ⟨key, j⟩ := m
    by_cases hkey : key = name
    · subst hkey
      have htake : (single key decode finish).take? key j s = some (fill key decode j s) :=
        if_pos rfl
      rw [valuesAt_cons_self]
      cases s with
      | some a =>
        rw [feed_of_refuse htake]
        rfl
      | none =>
        rw [sole]
        cases hj : decode j with
        | error e =>
          rw [fill, hj] at htake
          rw [feed_of_refuse htake]
          rfl
        | ok a =>
          rw [fill, hj] at htake
          rw [feed_of_take htake]
          exact ih (some a)
    · have htake : (single name decode finish).take? key j s = none := if_neg hkey
      rw [feed_of_skip htake, valuesAt_cons_of_ne hkey]
      exact ih s

theorem read_single (name : String) (decode : Decoder α) (finish : Option α → Except Mismatch β)
    (ms : List (String × Json)) :
    ((single name decode finish).read ms).toOption =
      (sole decode none (valuesAt name ms)).bind fun a => (finish a).toOption := by
  rw [read, toOption_bind, ← feed_single name decode finish]
  rfl

theorem read_required (name : String) (decode : Decoder α) (ms : List (String × Json)) :
    ((required name decode).read ms).toOption =
      (sole decode none (valuesAt name ms)).bind id := by
  have hread := read_single name decode (required name decode).finish ms
  refine hread.trans (congrArg _ (funext fun a => ?_))
  cases a with
  | none => rfl
  | some a => rfl

theorem read_withDefault (name : String) (decode : Decoder α) (default : α)
    (ms : List (String × Json)) :
    ((withDefault name decode default).read ms).toOption =
      (sole decode none (valuesAt name ms)).map fun a => a.getD default := by
  have hread := read_single name decode (withDefault name decode default).finish ms
  rw [Option.map_eq_bind]
  exact hread

/-- The reader takes members of these keys only. -/
def Knows (r : RecordReader α) (keys : List String) : Prop :=
  ∀ key ∉ keys, ∀ j s, r.take? key j s = none

theorem knows_required (name : String) (decode : Decoder α) :
    (required name decode).Knows [name] :=
  fun _ hkey _ _ => if_neg (by simpa using hkey)

theorem knows_withDefault (name : String) (decode : Decoder α) (default : α) :
    (withDefault name decode default).Knows [name] :=
  fun _ hkey _ _ => if_neg (by simpa using hkey)

/-- A record without fields takes no member. -/
theorem read_pure (a : α) (ms : List (String × Json)) : (pure a : RecordReader α).read ms = .ok a := by
  have hfeed : (pure a : RecordReader α).feed ms () = .ok () := by
    induction ms with
    | nil => rfl
    | cons m ms ih => exact ih
  rw [read]
  exact congrArg (· >>= fun _ => Except.ok a) hfeed

theorem feed_map_eq (f : α → β) (r : RecordReader α) (ms : List (String × Json)) (s : r.State) :
    (f <$> r).feed ms s = r.feed ms s := by
  induction ms generalizing s with
  | nil => rfl
  | cons m ms ih =>
    obtain ⟨key, j⟩ := m
    have htake : (f <$> r).take? key j s = r.take? key j s := rfl
    rw [feed, feed, htake]
    cases r.take? key j s with
    | none => exact ih s
    | some step =>
      cases step with
      | error e => rfl
      | ok s' => exact ih s'

theorem read_map (f : α → β) (r : RecordReader α) (ms : List (String × Json)) :
    ((f <$> r).read ms).toOption = ((r.read ms).toOption).map f := by
  have hstart : (f <$> r).start = r.start := rfl
  have hfinish : ∀ s, (f <$> r).finish s = (r.finish s).map f := fun _ => rfl
  rw [read, read, toOption_bind, toOption_bind, hstart, feed_map_eq]
  cases (r.feed ms r.start).toOption with
  | none => rfl
  | some s => exact toOption_map _ f

section Seq

variable {r : RecordReader (α → β)} {q : RecordReader α} {keys keys' : List String}

theorem feed_seq (hr : r.Knows keys) (hq : q.Knows keys') (hapart : ∀ key ∈ keys, key ∉ keys')
    (ms : List (String × Json)) (s : r.State) (t : q.State) :
    ((r <*> q).feed ms (s, t)).toOption =
      (r.feed ms s).toOption.bind fun s' => (q.feed ms t).toOption.map fun t' => (s', t') := by
  induction ms generalizing s t with
  | nil => rfl
  | cons m ms ih =>
    obtain ⟨key, j⟩ := m
    rw [feed, feed, feed, take?_seq]
    by_cases hkey : key ∈ keys
    · rw [hq key (hapart key hkey)]
      cases r.take? key j s with
      | none => exact ih s t
      | some step =>
        cases step with
        | error e => rfl
        | ok s' => exact ih s' t
    · rw [hr key hkey]
      cases q.take? key j t with
      | none => exact ih s t
      | some step =>
        cases step with
        | error e => cases (r.feed ms s).toOption <;> rfl
        | ok t' => exact ih s t'

theorem read_seq (hr : r.Knows keys) (hq : q.Knows keys') (hapart : ∀ key ∈ keys, key ∉ keys')
    (ms : List (String × Json)) :
    ((r <*> q).read ms).toOption =
      (r.read ms).toOption.bind fun f => (q.read ms).toOption.map f := by
  have hfinish : ∀ s t, ((r <*> q).finish (s, t)).toOption =
      (r.finish s).toOption.bind fun f => (q.finish t).toOption.map f := by
    intro s t
    show (r.finish s >>= fun f => q.finish t >>= fun a => pure (f a)).toOption = _
    cases r.finish s with
    | error e => rfl
    | ok f => cases q.finish t <;> rfl
  rw [read, read, read, toOption_bind, toOption_bind, toOption_bind]
  have hfeed := feed_seq hr hq hapart ms r.start q.start
  replace hfeed : ((r <*> q).feed ms (r <*> q).start).toOption = _ := hfeed
  rw [hfeed]
  cases (r.feed ms r.start).toOption with
  | none => rfl
  | some s =>
    cases (q.feed ms q.start).toOption with
    | none => simp
    | some t => exact hfinish s t

theorem knows_seq (hr : r.Knows keys) (hq : q.Knows keys') : (r <*> q).Knows (keys ++ keys') := by
  rintro key hkey j ⟨s, t⟩
  rw [List.mem_append, not_or] at hkey
  rw [take?_seq, hr key hkey.1, hq key hkey.2]
  rfl

end Seq

end RecordReader

/-! ### Locations and tags -/

namespace Decoder

section TakeField

variable {α : Type} {name : String} {decode : Decoder α}

theorem takeField_none (j : Json) (rest : List (String × Json)) :
    takeField name decode none ((name, j) :: rest) =
      (decode j >>= fun a => takeField name decode (some a) rest) := by
  rw [takeField, if_pos rfl]

theorem takeField_some (a : α) (j : Json) (rest : List (String × Json)) :
    takeField name decode (some a) ((name, j) :: rest) = .error (.duplicateField name) := by
  rw [takeField, if_pos rfl]

theorem takeField_of_ne {key : String} (h : key ≠ name) (found : Option α) (j : Json)
    (rest : List (String × Json)) :
    takeField name decode found ((key, j) :: rest) =
      (takeField name decode found rest >>= fun r => pure (r.1, (key, j) :: r.2)) := by
  rw [takeField.eq_def]
  exact if_neg h

/-- Taking a field out gives its value and the other members, unless it is there twice or its value
    is refused. -/
theorem takeField_toOption (found : Option α) (ms : List (String × Json)) :
    (takeField name decode found ms).toOption =
      (sole decode found (valuesAt name ms)).map fun a => (a, others name ms) := by
  induction ms generalizing found with
  | nil => rfl
  | cons m ms ih =>
    obtain ⟨key, j⟩ := m
    by_cases hkey : key = name
    · subst hkey
      have hothers : others key ((key, j) :: ms) = others key ms := by simp [others]
      rw [valuesAt_cons_self, hothers]
      cases found with
      | some a =>
        rw [takeField_some]
        rfl
      | none =>
        rw [takeField_none, toOption_bind, sole]
        cases (decode j).toOption with
        | none => rfl
        | some a => exact ih (some a)
    · have hothers : others name ((key, j) :: ms) = (key, j) :: others name ms := by
        simp [others, hkey]
      rw [takeField_of_ne hkey, toOption_bind, ih, valuesAt_cons_of_ne hkey, hothers]
      cases sole decode found (valuesAt name ms) with
      | none => rfl
      | some a => rfl

end TakeField

theorem splitLoc_toOption (ms : List (String × Json)) :
    (splitLoc ms).toOption = (sole loc none (valuesAt "loc" ms)).map fun l =>
      (l.getD Loc.synthetic, others "loc" ms) := by
  rw [splitLoc, toOption_bind, takeField_toOption]
  cases sole loc none (valuesAt "loc" ms) with
  | none => rfl
  | some l => rfl

theorem splitTag_toOption (κ : Type) [Variant κ] (ms : List (String × Json)) :
    (splitTag κ ms).toOption = ((sole (tag κ) none (valuesAt tagKey ms)).bind id).map fun k =>
      (k, others tagKey ms) := by
  rw [splitTag, toOption_bind, takeField_toOption]
  cases sole (tag κ) none (valuesAt tagKey ms) with
  | none => rfl
  | some k =>
    cases k with
    | none => rfl
    | some k => rfl

end Decoder

end ScriptTree
