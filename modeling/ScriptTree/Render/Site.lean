/-
  ScriptTree/Render/Site.lean
  ===========================
  **Where a rule is at work.**  A node is known by its *place*, the path from the root of its tree;
  what serves as its key in the cache is a function of the place.  A `Site` is a node as its rule
  sees it: the key, the kind, and the fields, whose statements and expressions have become actions
  that render them.  Reading a field asks the cache first and stores what had to be rendered.
-/
import ScriptTree.Render.Action
import ScriptTree.Render.Spelling
import ScriptTree.Render.Template

namespace ScriptTree

/-- One step down a tree. -/
inductive Step where
  /-- Into a field; children of a list are counted. -/
  | field (f : Field) (index : Nat)
  /-- To a key of a dictionary. -/
  | key (index : Nat)
  /-- To a default of a parameter list. -/
  | default (index : Nat)
  deriving DecidableEq, Repr

/-- The path to a node, last step first. -/
abbrev Place := List Step

/-- How to render a node at a place. -/
abbrev Emit (κ : Type) := Place → Render κ String

namespace FieldValue

variable {κ σ ε : Type}

/-- The children in a field of the node at a place, as actions. -/
def atPlace (stmt : σ → Emit κ) (expr : ε → Emit κ) (p : Place) (f : Field) :
    FieldValue σ ε → FieldValue (Render κ String) (Render κ String)
  | .stmts ss => .stmts (ss.mapIdx fun i s => stmt s (.field f i :: p))
  | .expr e => .expr (expr e (.field f 0 :: p))
  | .optExpr e => .optExpr (e.map fun e => expr e (.field f 0 :: p))
  | .exprs es => .exprs (es.mapIdx fun i e => expr e (.field f i :: p))
  | .ident s => .ident s
  | .boolOp op => .boolOp op
  | .binaryOp op => .binaryOp op
  | .unaryOp op => .unaryOp op

/-- The text of a field. -/
def render : FieldValue (Render κ String) (Render κ String) → Render κ String
  | .stmts ms => Render.joined ";\n" ms
  | .expr m => m
  | .optExpr none => pure "null"
  | .optExpr (some m) => m
  | .exprs ms => Render.joined ", " ms
  | .ident s => pure (doubleQuoted s)
  | .boolOp op => pure op.spelling
  | .binaryOp op =>
    match op.spell with
    | .ok s => pure s
    | .error e => Render.fail e
  | .unaryOp op => pure op.spelling

end FieldValue

/-- A node as its rule sees it. -/
structure Site (κ : Type) where
  key : κ
  kind : NodeKind
  fields : List (Field × FieldValue (Render κ String) (Render κ String))

namespace Site

variable {κ : Type} [DecidableEq κ]

/-- The rendered text of a field. -/
def attr (s : Site κ) (f : Field) : Render κ String := do
  match ← Render.find ⟨s.key, f, .rendered⟩ with
  | some text => return text
  | none =>
    match s.fields.lookup f with
    | none => Render.fail ⟨.missingField s.kind f, none⟩
    | some value =>
      let text ← value.render
      Render.store ⟨s.key, f, .rendered⟩ text

/-- The bare text of a field that holds a name. -/
def rawAttr (s : Site κ) (f : Field) : Render κ String := do
  match ← Render.find ⟨s.key, f, .raw⟩ with
  | some text => return text
  | none =>
    match s.fields.lookup f with
    | none => Render.fail ⟨.missingField s.kind f, none⟩
    | some (.ident text) => Render.store ⟨s.key, f, .raw⟩ text
    | some _ => Render.fail ⟨.rawUnavailable s.kind f, none⟩

/-- The text of one piece of a template. -/
def piece (s : Site κ) : Piece → Render κ String
  | .lit text => pure text
  | .rendered f => s.attr f
  | .raw f => s.rawAttr f

/-- The text of a template. -/
def template (s : Site κ) (t : Template) : Render κ String := Render.joined "" (t.map s.piece)

end Site

end ScriptTree
