/-
  ScriptTree/Tree/Variant.lean
  ============================
  **Closed sets of named alternatives**: operators and kinds of nodes.  A tree in JSON names them,
  so each set has its members in a fixed order and each member a name.
-/
namespace ScriptTree

/-- A finite set whose members are known by name and by their place in a list. -/
class Variant (κ : Type) where
  /-- All members in order. -/
  all : List κ
  /-- The name of a member. -/
  name : κ → String
  /-- Every member is in the list, and no other one has its name. -/
  find?_name (k : κ) : (all.find? fun other => name other == name k) = some k := by
    intro k
    cases k <;> rfl

namespace Variant

/-- The member of a name. -/
def ofName? (κ : Type) [Variant κ] (s : String) : Option κ :=
  (all (κ := κ)).find? fun k => name k == s

@[simp] theorem ofName?_name {κ : Type} [Variant κ] (k : κ) : ofName? κ (name k) = some k :=
  find?_name k

/-- The member at a place in the list. -/
def ofIndex? (κ : Type) [Variant κ] (i : Nat) : Option κ := (all (κ := κ))[i]?

/-- The names of all members in order. -/
def names (κ : Type) [Variant κ] : List String := (all (κ := κ)).map name

end Variant

end ScriptTree
