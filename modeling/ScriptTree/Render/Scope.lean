/-
  ScriptTree/Render/Scope.lean
  ============================
  **Lexical scopes**, which decide between `var x = …` and `x = …`.  Frames live in a stack and know
  their parent by its place.  Only the innermost frame is written to; looking a name up walks from
  there through the parents.  A frame is opened for the body of a function, a lambda or a loop and
  dropped at its end, so no two bodies share one.
-/
namespace ScriptTree

/-- The place of a frame in its stack, counted from the top level. -/
structure ScopeId where
  index : Nat
  deriving DecidableEq, Repr

/-- A frame: the one around it, and the names declared in it. -/
structure Frame where
  parent : Option ScopeId
  names : List String
  deriving DecidableEq, Repr

/-- Adds names to a frame; a name already there stays once. -/
def Frame.declare (f : Frame) (names : List String) : Frame :=
  { f with names := names.foldl (fun known n => known.insert n) f.names }

/-- A stack of frames, the top level first.  The top level is always there. -/
structure ScopeStack where
  frames : Array Frame
  nonempty : 0 < frames.size
  deriving DecidableEq, Repr

namespace ScopeStack

/-- The stack that holds only the top level. -/
def new : ScopeStack := ⟨#[⟨none, []⟩], Nat.one_pos⟩

/-- The number of frames. -/
def depth (s : ScopeStack) : Nat := s.frames.size

/-- The innermost frame. -/
def current (s : ScopeStack) : ScopeId := ⟨s.frames.size - 1⟩

/-- Opens a frame inside the innermost one. -/
def enter (s : ScopeStack) : ScopeStack := ⟨s.frames.push ⟨some s.current, []⟩, by simp⟩

/-- Drops the innermost frame; the top level stays. -/
def exit (s : ScopeStack) : ScopeStack :=
  if h : 1 < s.frames.size then ⟨s.frames.pop, by rw [Array.size_pop]; omega⟩ else s

/-- Declares names in the innermost frame. -/
def declare (s : ScopeStack) (names : List String) : ScopeStack :=
  ⟨s.frames.modify (s.frames.size - 1) fun f => f.declare names, by simpa using s.nonempty⟩

/-- The stack of a top level where names are declared already. -/
def withDeclared (names : List String) : ScopeStack := new.declare names

/-- Whether a name is declared in the given frame or one around it; the number bounds the walk. -/
def declaredFrom (s : ScopeStack) (name : String) : Nat → Option ScopeId → Bool
  | _, none => false
  | 0, some _ => false
  | fuel + 1, some id =>
    match s.frames[id.index]? with
    | none => false
    | some f => f.names.contains name || s.declaredFrom name fuel f.parent

/-- Whether a name is declared in the innermost frame or one around it. -/
def contains (s : ScopeStack) (name : String) : Bool :=
  s.declaredFrom name s.frames.size (some s.current)

end ScopeStack

end ScriptTree
