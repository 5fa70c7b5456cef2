/-
  ScriptTree/Render/Cache.lean
  ============================
  **The attribute cache**: the texts of fields already rendered in a pass.  A field is known by the
  key of its node, its name and the way it is read.  The first text stored for a key stays.  Texts
  stored and successful look-ups are counted.
-/
import ScriptTree.Render.Field

namespace ScriptTree

/-- How a field is read: as rendered text, or as the bare text of a name. -/
inductive Access where
  | rendered
  | raw
  deriving DecidableEq, Repr

/-- What a cached text belongs to, in a tree whose nodes have keys of type `κ`. -/
structure AttrKey (κ : Type) where
  node : κ
  field : Field
  access : Access
  deriving DecidableEq, Repr

/-- How many texts were stored and how many look-ups found one. -/
structure Stats where
  computed : Nat
  hits : Nat
  deriving DecidableEq, Repr

/-- Cached texts and what they saved so far. -/
structure AttrCache (κ : Type) where
  entries : List (AttrKey κ × String)
  stats : Stats

namespace AttrCache

variable {κ : Type} [DecidableEq κ]

/-- The cache at the start of a pass. -/
def empty : AttrCache κ := ⟨[], ⟨0, 0⟩⟩

/-- Forgets all texts and counts. -/
def clear (_ : AttrCache κ) : AttrCache κ := empty

/-- The number of texts. -/
def size (c : AttrCache κ) : Nat := c.entries.length

/-- The text of a key, without counting. -/
def get? (c : AttrCache κ) (key : AttrKey κ) : Option String := c.entries.lookup key

/-- Looks a text up; a text found counts as a hit. -/
def find (c : AttrCache κ) (key : AttrKey κ) : Option String × AttrCache κ :=
  match c.get? key with
  | some text => (some text, { c with stats := { c.stats with hits := c.stats.hits + 1 } })
  | none => (none, c)

/-- Stores a text, unless the key has one; tells the text that the key has from now on. -/
def store (c : AttrCache κ) (key : AttrKey κ) (text : String) : String × AttrCache κ :=
  let stats := { c.stats with computed := c.stats.computed + 1 }
  match c.get? key with
  | some kept => (kept, ⟨c.entries, stats⟩)
  | none => (text, ⟨(key, text) :: c.entries, stats⟩)

end AttrCache

end ScriptTree
