/-
  ScriptTree/Render/Action.lean
  =============================
  **Rendering actions.**  An action starts from a renderer (its open scopes and its cache) and ends
  with a result or an error, the renderer as it is then, and the events in between.  A failed action
  too leaves a renderer and events behind: names it declared stay declared, and scopes it opened are
  closed again.
-/
import ScriptTree.Render.Cache
import ScriptTree.Render.Error
import ScriptTree.Render.Scope

namespace ScriptTree

/-- What a run reports while it goes on. -/
inductive Event where
  /-- An assignment to a target, with `var` or without. -/
  | assignment (name : String) (declared : Bool)
  /-- A scope was opened; the depth counts it. -/
  | enteredScope (depth : Nat)
  /-- A scope was closed; the depth no longer counts it. -/
  | exitedScope (depth : Nat)
  /-- A body of so many statements is about to be rendered. -/
  | body (statements : Nat)
  | enter
  /-- A body was rendered, with these counts. -/
  | rendered (stats : Stats)
  | exit
  deriving DecidableEq, Repr

/-- What lives through the passes of a session. -/
structure Renderer (κ : Type) where
  scopes : ScopeStack
  cache : AttrCache κ

/-- How an action ends. -/
structure Outcome (κ α : Type) where
  result : Except RenderError α
  renderer : Renderer κ
  events : List Event

/-- An action that renders something. -/
def Render (κ α : Type) := Renderer κ → Outcome κ α

namespace Render

variable {κ α β : Type}

instance : Monad (Render κ) where
  pure a := fun r => ⟨.ok a, r, []⟩
  bind m f := fun r =>
    let o := m r
    match o.result with
    | .error e => ⟨.error e, o.renderer, o.events⟩
    | .ok a =>
      let o' := f a o.renderer
      ⟨o'.result, o'.renderer, o.events ++ o'.events⟩

/-- Gives up. -/
def fail (e : RenderError) : Render κ α := fun r => ⟨.error e, r, []⟩

/-- Gives up on something that has no rendering. -/
def unsupported (what : Construct) : Render κ α := fail (.unsupported what)

/-- An error of the action is located at the node around it, unless it has a location. -/
def around (l : Loc) (m : Render κ α) : Render κ α := fun r =>
  let o := m r
  { o with result := o.result.mapError fun e => e.around l }

/-- Reports something. -/
def report (e : Event) : Render κ Unit := fun r => ⟨.ok (), r, [e]⟩

/-- Whether a name is declared here. -/
def isDeclared (name : String) : Render κ Bool := fun r => ⟨.ok (r.scopes.contains name), r, []⟩

/-- Declares a name in the innermost scope. -/
def declare (name : String) : Render κ Unit := fun r =>
  ⟨.ok (), { r with scopes := r.scopes.declare [name] }, []⟩

/-- Runs an action in a scope of its own where some names are declared.  The scope is closed also
    when the action fails. -/
def inScope (names : List String) (m : Render κ α) : Render κ α := fun r =>
  let entered := r.scopes.enter
  let o := m { r with scopes := entered.declare names }
  let left := o.renderer.scopes.exit
  let closing := if 1 < o.renderer.scopes.depth then [Event.exitedScope left.depth] else []
  ⟨o.result, { o.renderer with scopes := left },
    Event.enteredScope entered.depth :: o.events ++ closing⟩

/-- Looks a text up in the cache. -/
def find [DecidableEq κ] (key : AttrKey κ) : Render κ (Option String) := fun r =>
  let (text, cache) := r.cache.find key
  ⟨.ok text, { r with cache := cache }, []⟩

/-- Stores a text in the cache. -/
def store [DecidableEq κ] (key : AttrKey κ) (text : String) : Render κ String := fun r =>
  let (kept, cache) := r.cache.store key text
  ⟨.ok kept, { r with cache := cache }, []⟩

/-- Runs actions in order. -/
def all : List (Render κ α) → Render κ (List α)
  | [] => pure []
  | m :: rest => do
    let a ← m
    let as ← all rest
    return a :: as

/-- Runs actions in order and joins their texts. -/
def joined (separator : String) (ms : List (Render κ String)) : Render κ String := do
  let texts ← all ms
  return separator.intercalate texts

end Render

end ScriptTree
