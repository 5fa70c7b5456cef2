/-
  ScriptTree/Tree/Loc.lean
  ========================
  **Source locations.**  A node made by a program rather than read from a source has line zero.
-/
namespace ScriptTree

/-- A line and a column of the source a tree was made from. -/
structure Loc where
  line : UInt32
  column : UInt32
  deriving DecidableEq, Repr

namespace Loc

/-- The location of a node that stands for no piece of source. -/
def synthetic : Loc := ⟨0, 0⟩

/-- Whether a node stands for no piece of source. -/
def isSynthetic (l : Loc) : Bool := l.line == 0

/-- Line and column with a colon between them. -/
def text (l : Loc) : String := Nat.repr l.line.toNat ++ ":" ++ Nat.repr l.column.toNat

end Loc

end ScriptTree
