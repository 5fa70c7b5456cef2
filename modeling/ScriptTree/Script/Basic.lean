/-
  ScriptTree/Script/Basic.lean
  ============================
  **Scripts**: a module with variables bound in front of it.  The bindings are rendered once, when
  the script is built; the body is rendered in scopes of its own where the bound names count as
  declared.
-/
import ScriptTree.Render.Stmt
import ScriptTree.Script.Binding

namespace ScriptTree

/-- A result and the events on the way to it. -/
structure Traced (α : Type) where
  result : Except RenderError α
  events : List Event

/-- The text of a body, some names being declared before it. -/
def renderBody (body : List Stmt) (declared : List String) : Traced String :=
  let o := Renderer.renderStmts id body (Renderer.withScopes (ScopeStack.withDeclared declared))
  let summary := match o.result with
    | .ok _ => [Event.rendered o.renderer.stats]
    | .error _ => []
  ⟨o.result, [Event.body body.length, Event.enter] ++ o.events ++ summary ++ [Event.exit]⟩

/-- A module with its bindings, which are rendered already. -/
structure Script where
  body : List Stmt
  names : List String
  preamble : String

namespace Script

/-- Renders the bindings of a module. -/
def build (m : Module) (bindings : List Binding) : Traced Script :=
  let o := Renderer.renderStmts (id : Place → Place) (bindings.map Binding.stmt) Renderer.new
  ⟨o.result.map fun preamble => ⟨m.body, bindings.map Binding.name, preamble⟩, o.events⟩

/-- The bindings and the body, one after the other; an empty one leaves no trace. -/
def assemble (preamble body : String) : String :=
  if preamble.isEmpty then body
  else if body.isEmpty then preamble
  else preamble ++ ";\n" ++ body

/-- The text of a script. -/
def render (s : Script) : Traced String :=
  let t := renderBody s.body s.names
  ⟨t.result.map (assemble s.preamble), t.events⟩

/-- The text of a module with bindings, and all events on the way. -/
def run (m : Module) (bindings : List Binding) : Traced String :=
  let built := build m bindings
  match built.result with
  | .error e => ⟨.error e, built.events⟩
  | .ok script =>
    let t := script.render
    ⟨t.result, built.events ++ t.events⟩

end Script

end ScriptTree
