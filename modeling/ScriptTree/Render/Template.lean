/-
  ScriptTree/Render/Template.lean
  ===============================
  **Templates**: text with placeholders for the fields of a node.  `${name}` stands for the field as
  rendered, `${name:raw}` for the bare text of a name.  `Template.parse` reads the written form and
  `Template.print` writes it; the templates of the rules follow.
-/
import ScriptTree.Render.Field
import ScriptTree.Text.Quoted

namespace ScriptTree

/-- A piece of a template. -/
inductive Piece where
  | lit (text : String)
  | rendered (field : Field)
  | raw (field : Field)
  deriving DecidableEq, Repr

/-- A template. -/
abbrev Template := List Piece

/-- Why a text is no template. -/
inductive TemplateError where
  | unterminated (source : String)
  | unknownField (name source : String)
  deriving DecidableEq, Repr

/-- The wording of a template error. -/
def TemplateError.message : TemplateError → String
  | .unterminated source => "unterminated placeholder in template " ++ Text.quoted source
  | .unknownField name source =>
    "unknown field " ++ Text.quoted name ++ " in template " ++ Text.quoted source

namespace Template

/-- Literal text in front of pieces, unless it is empty; its characters come last first. -/
def literal (text : List Char) (pieces : Template) : Template :=
  if text.isEmpty then pieces else .lit (String.ofList text.reverse) :: pieces

/-- The piece for what stands between the braces, its characters last first. -/
def placeholder (source : String) (inside : List Char) : Except TemplateError Piece :=
  let (base, piece) := match inside with
    | 'w' :: 'a' :: 'r' :: ':' :: base => (base, Piece.raw)
    | _ => (inside, Piece.rendered)
  let name := String.ofList base.reverse
  match Variant.ofName? Field name with
  | some field => .ok (piece field)
  | none => .error (.unknownField name source)

mutual

/-- Reads on outside of a placeholder; `text` holds the literal so far, last character first. -/
def outside (source : String) (text : List Char) : List Char → Except TemplateError Template
  | [] => .ok (literal text [])
  | '$' :: '\x7b' :: rest => do
    let pieces ← inside source [] rest
    return literal text pieces
  | c :: rest => outside source (c :: text) rest

/-- Reads on inside a placeholder; `name` holds what stands there so far, last character first. -/
def inside (source : String) (name : List Char) : List Char → Except TemplateError Template
  | [] => .error (.unterminated source)
  | '\x7d' :: rest => do
    let piece ← placeholder source name
    let pieces ← outside source [] rest
    return piece :: pieces
  | c :: rest => inside source (c :: name) rest

end

/-- Reads a template. -/
def parse (source : String) : Except TemplateError Template := outside source [] source.toList

/-- The written form of a piece. -/
def printPiece : Piece → String
  | .lit text => text
  | .rendered field => "$\x7b" ++ Variant.name field ++ "\x7d"
  | .raw field => "$\x7b" ++ Variant.name field ++ ":raw\x7d"

/-- The written form of a template. -/
def print (t : Template) : String := String.join (t.map printPiece)

/-! ### The templates of the rules -/

def ret : Template := [.lit "return ", .rendered .value]

def augAssign : Template := [.rendered .target, .lit " ", .rendered .op, .lit "= ", .rendered .value]

def augAssignFloorDiv : Template :=
  [.rendered .target, .lit " = Math.floor(", .rendered .target, .lit " / ", .rendered .value,
    .lit ")"]

def whileLoop : Template :=
  [.lit "while (", .rendered .test, .lit ") \x7b\n", .rendered .body, .lit "\n\x7d"]

def cond : Template :=
  [.lit "if (", .rendered .test, .lit ") \x7b\n", .rendered .body, .lit "\n\x7d else \x7b\n",
    .rendered .orelse, .lit "\n\x7d"]

def raise : Template := [.lit "throw new Error(", .rendered .exc, .lit ")"]

def expr : Template := [.rendered .value]

def pass : Template := []

def breakLoop : Template := [.lit "break"]

def continueLoop : Template := [.lit "continue"]

def binOp : Template :=
  [.lit "(", .rendered .left, .lit " ", .rendered .op, .lit " ", .rendered .right, .lit ")"]

def binOpFloorDiv : Template :=
  [.lit "(Math.floor(", .rendered .left, .lit " / ", .rendered .right, .lit "))"]

def unaryOp : Template := [.lit "(", .rendered .op, .rendered .operand, .lit ")"]

def ifExp : Template :=
  [.lit "((", .rendered .test, .lit ") ? (", .rendered .body, .lit ") : (", .rendered .orelse,
    .lit "))"]

def member : Template := [.rendered .value, .lit ".", .raw .attr]

def subscript : Template := [.rendered .value, .lit "[", .rendered .slice, .lit "]"]

def name : Template := [.raw .id]

def starred : Template := [.lit "...", .rendered .value]

def list : Template := [.lit "[", .rendered .elts, .lit "]"]

end Template

end ScriptTree
