/-
  ScriptTree/Tree/Record.lean
  ===========================
  **Records from the members of an object.**  A `RecordReader` takes the members one by one in the
  order written and refuses the first that is bad or repeated; when all are taken it refuses the
  first field, in the order declared, that is required and missing.  Members that belong to no field
  are passed over.  Readers of fields combine as applicatives:

      Pair.mk <$> required "first" f <*> withDefault "second" g none
-/
import ScriptTree.Tree.Mismatch

namespace ScriptTree

/-- A way to read a record of type `α`: what is known at the start, what a member adds if it is a
    field of the record, and the record made at the end. -/
structure RecordReader (α : Type) where
  State : Type
  start : State
  take? : String → Json → State → Option (Except Mismatch State)
  finish : State → Except Mismatch α

namespace RecordReader

/-- What a member of the right name adds to a field. -/
def fill {α : Type} (name : String) (decode : Json → Except Mismatch α) (j : Json) :
    Option α → Except Mismatch (Option α)
  | some _ => .error (.duplicateField name)
  | none => (decode j).map some

/-- A field that must be there. -/
def required {α : Type} (name : String) (decode : Json → Except Mismatch α) : RecordReader α where
  State := Option α
  start := none
  take? key j s := if key = name then some (fill name decode j s) else none
  finish
    | some a => .ok a
    | none => .error (.missingField name)

/-- A field that may be left out. -/
def withDefault {α : Type} (name : String) (decode : Json → Except Mismatch α) (default : α) :
    RecordReader α where
  State := Option α
  start := none
  take? key j s := if key = name then some (fill name decode j s) else none
  finish s := .ok (s.getD default)

instance : Pure RecordReader where
  pure a := { State := Unit, start := (), take? := fun _ _ _ => none, finish := fun _ => .ok a }

instance : Functor RecordReader where
  map f r := { State := r.State, start := r.start, take? := r.take?,
               finish := fun s => (r.finish s).map f }

instance : Seq RecordReader where
  seq r q :=
    let q := q ()
    { State := r.State × q.State
      start := (r.start, q.start)
      take? := fun key j s =>
        match r.take? key j s.1 with
        | some step => some (step.map fun s₁ => (s₁, s.2))
        | none => (q.take? key j s.2).map fun step => step.map fun s₂ => (s.1, s₂)
      finish := fun s => do
        let f ← r.finish s.1
        let a ← q.finish s.2
        return f a }

/-- Takes the members in order. -/
def feed {α : Type} (r : RecordReader α) :
    List (String × Json) → r.State → Except Mismatch r.State
  | [], s => .ok s
  | (key, j) :: rest, s =>
    match r.take? key j s with
    | none => r.feed rest s
    | some (.ok s) => r.feed rest s
    | some (.error e) => .error e

/-- The record that the members of an object spell. -/
def read {α : Type} (r : RecordReader α) (members : List (String × Json)) : Except Mismatch α := do
  let s ← r.feed members r.start
  r.finish s

end RecordReader

end ScriptTree
