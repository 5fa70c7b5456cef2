/-
  ScriptTree/Tree/Load.lean
  =========================
  **Trees from text.**  The text of a tree is read as JSON in one go, except that the location of
  the outermost node is checked as soon as it is read: its faults have positions of their own.  All
  other faults of shape are found in the values read, and lie behind the outermost node.  What
  follows the tree is looked at last.
-/
import ScriptTree.Json.Reader
import ScriptTree.Tree.Decode

namespace ScriptTree

/-- Why a text is no tree. -/
inductive LoadCause where
  | syntaxFault (fault : Json.SyntaxFault)
  | mismatch (m : Mismatch)
  deriving DecidableEq

/-- The wording of a cause. -/
def LoadCause.message : LoadCause → String
  | .syntaxFault fault => fault.message
  | .mismatch m => m.message

/-- A text that is no tree: the cause, and where it lies if that is known. -/
structure LoadError where
  cause : LoadCause
  position : Option Json.Position
  deriving DecidableEq

namespace LoadError

/-- The line of the fault, zero when it is not known. -/
def line (e : LoadError) : Nat := (e.position.map Json.Position.line).getD 0

/-- The column of the fault, zero when it is not known. -/
def column (e : LoadError) : Nat := (e.position.map Json.Position.column).getD 0

/-- The wording of the error. -/
def message (e : LoadError) : String :=
  "invalid syntax tree: " ++ e.cause.message
    ++ (e.position.map Json.Position.suffix).getD ""

/-- The wording of the error with the place once more at its end. -/
def longMessage (e : LoadError) : String :=
  e.message ++ " around [" ++ Nat.repr e.line ++ ":" ++ Nat.repr e.column ++ "]"

end LoadError

namespace Load

open Json (Stop skipBlanks)

/-- Reading for a tree. -/
abbrev LoadStop := Stop LoadCause

/-- A syntax fault where a tree is read. -/
def syntaxOf {α : Type} (r : Except (Stop Json.SyntaxFault) α) : Except LoadStop α :=
  r.mapError (Stop.map .syntaxFault)

/-- A fault of shape in what has been read. -/
def shapeAt {α : Type} (unread : List Char) (r : Except Mismatch α) : Except LoadStop α :=
  r.mapError fun m => ⟨.mismatch m, unread, 0⟩

/-- Something other than what was expected: a scalar is read before it is refused, a bracket is
    refused unread. -/
def refuse {α : Type} (expected : Expected) (cs : List Char) : Except LoadStop α :=
  match skipBlanks cs with
  | '[' :: rest => shapeAt ('[' :: rest) (.error (.type .sequence expected))
  | '\x7b' :: rest => shapeAt ('\x7b' :: rest) (.error (.type .map expected))
  | text => do
    let (j, rest) ← syntaxOf (Json.readScalar text)
    shapeAt rest (wrongType j expected)

/-! ### The location of the outermost node -/

/-- A number of a location. -/
def readUnsigned (cs : List Char) : Except LoadStop (UInt32 × List Char) :=
  match skipBlanks cs with
  | '[' :: rest => refuse .unsigned ('[' :: rest)
  | '\x7b' :: rest => refuse .unsigned ('\x7b' :: rest)
  | text => do
    let (j, rest) ← syntaxOf (Json.readScalar text)
    let n ← shapeAt rest (Decoder.unsigned j)
    return (n, rest)

/-- The end of a list that must hold no more items. -/
def readListEnd (cs : List Char) : Except LoadStop (List Char) :=
  match skipBlanks cs with
  | [] => .error ⟨.syntaxFault .endInList, [], 1⟩
  | ']' :: rest => .ok rest
  | ',' :: rest =>
    match skipBlanks rest with
    | ']' :: after => .error ⟨.syntaxFault .trailingComma, ']' :: after, 1⟩
    | text => .error ⟨.syntaxFault .trailingCharacters, text, 1⟩
  | text => .error ⟨.syntaxFault .trailingCharacters, text, 1⟩

/-- A location, checked while it is read. -/
def readLoc (cs : List Char) : Except LoadStop (Loc × List Char) :=
  match skipBlanks cs with
  | '[' :: rest => do
    let (more, text) ← syntaxOf (Json.nextItem true rest)
    if !more then shapeAt text (.error (.length 0 .locOfTwo))
    let (line, rest) ← readUnsigned text
    let (more, text) ← syntaxOf (Json.nextItem false rest)
    if !more then shapeAt text (.error (.length 1 .locOfTwo))
    let (column, rest) ← readUnsigned text
    let rest ← readListEnd rest
    return (⟨line, column⟩, rest)
  | text => refuse .loc text

/-- Where a repeated location is blamed: behind its key, and behind the node if that ends there. -/
def afterRepeatedKey (cs : List Char) : List Char :=
  match skipBlanks cs with
  | '\x7d' :: rest => rest
  | text => text

/-- What was read of the outermost node: its location and its other members, last first. -/
structure Outer where
  loc : Option Loc
  members : List (String × Json)

/-- One member of the outermost node. -/
def readOuterMember (fuel : Nat) (outer : Outer) (key : String) (cs : List Char) :
    Except LoadStop (Outer × List Char) :=
  if key = "loc" then
    match outer.loc with
    | some _ => shapeAt (afterRepeatedKey cs) (.error (.duplicateField "loc"))
    | none => do
      let (_, rest) ← syntaxOf (Json.readColon cs)
      let (l, rest) ← readLoc rest
      return ({ outer with loc := some l }, rest)
  else do
    let (ms, rest) ← syntaxOf
      (Json.readMember (Json.readValue fuel (Json.nestingLimit - 1)) outer.members key cs)
    return ({ outer with members := ms }, rest)

/-- The outermost node: its location and its other members. -/
def readOuter (fuel : Nat) (cs : List Char) :
    Except LoadStop ((Loc × List (String × Json)) × List Char) :=
  match skipBlanks cs with
  | '\x7b' :: rest => do
    let (outer, rest) ←
      Json.readMembers .syntaxFault (readOuterMember fuel) fuel true ⟨none, []⟩ rest
    return ((outer.loc.getD Loc.synthetic, outer.members.reverse), rest)
  | text => refuse .node text

/-! ### Whole texts -/

/-- Runs a reader on a whole text, behind which only blanks may follow. -/
def whole {α : Type} (read : List Char → Except LoadStop (α × List Char)) (text : String) :
    Except LoadError α :=
  let result : Except LoadStop α := do
    let (a, rest) ← read text.toList
    let _ ← syntaxOf (Json.readEnd rest)
    return a
  result.mapError fun stop => ⟨stop.cause, some (stop.position text.toList)⟩

/-- A node from a whole text. -/
def node {α : Type} (make : Loc → List (String × Json) → Except Mismatch α) (text : String) :
    Except LoadError α :=
  whole (fun cs => do
    let ((l, ms), rest) ← readOuter (Json.fuelFor cs) cs
    let a ← shapeAt rest (make l ms)
    return (a, rest)) text

/-- Something other than a key at the start of an object that must have one. -/
def noKey {α : Type} (cs : List Char) : Except LoadStop α :=
  let fault : Json.SyntaxFault := match cs with
    | [] => .endInObject
    | '\x7d' :: _ => .expectedValue
    | _ => .keyNotString
  .error ⟨.syntaxFault fault, cs, 1⟩

/-- An alternative by its name, with the text behind it. -/
def readVariant (κ : Type) [Variant κ] (cs : List Char) : Except LoadStop (κ × List Char) :=
  match skipBlanks cs with
  | [] => .error ⟨.syntaxFault .endInValue, [], 1⟩
  | '"' :: rest => named rest
  | '\x7b' :: rest =>
    match skipBlanks rest with
    | '"' :: key => do
      let (k, rest) ← named key
      let (_, rest) ← syntaxOf (Json.readColon rest)
      match skipBlanks rest with
      | 'n' :: word => do
        let (_, rest) ← syntaxOf (Json.readWord ['u', 'l', 'l'] word)
        match skipBlanks rest with
        | [] => .error ⟨.syntaxFault .endInObject, [], 0⟩
        | '\x7d' :: rest => return (k, rest)
        | text => .error ⟨.syntaxFault .expectedValue, text, 0⟩
      | text => refuse .unit text
    | text => noKey text
  | text => .error ⟨.syntaxFault .expectedValue, text, 1⟩
where
  /-- The alternative whose name is the string that starts here. -/
  named (cs : List Char) : Except LoadStop (κ × List Char) := do
    let (s, rest) ← syntaxOf (Json.readString cs)
    let k ← shapeAt rest (Decoder.variantOfName κ s)
    return (k, rest)

end Load

/-- The module that a text spells. -/
def Module.load : String → Except LoadError Module :=
  Load.node fun l ms => (Module.fields l).read ms

/-- The expression that a text spells. -/
def Expr.load : String → Except LoadError Expr := Load.node (Expr.ofMembers Expr.ofJson)

/-- The statement that a text spells. -/
def Stmt.load : String → Except LoadError Stmt := Load.node (Stmt.ofMembers Stmt.ofJson Expr.ofJson)

/-- The parameter list that a text spells. -/
def Params.load : String → Except LoadError (Params Expr) :=
  Load.node fun l ms => (Params.fields Expr.ofJson l).read ms

/-- The location that a text spells. -/
def Loc.load : String → Except LoadError Loc := Load.whole Load.readLoc

/-- The operator that a text names. -/
def Variant.load (κ : Type) [Variant κ] : String → Except LoadError κ :=
  Load.whole (Load.readVariant κ)

/-- The constant that a text spells.  A list or an object is refused without a place. -/
def Constant.load (text : String) : Except LoadError Constant :=
  let cs := text.toList
  let fail := fun (stop : Json.Stop Json.SyntaxFault) =>
    (⟨.syntaxFault stop.cause, some (stop.position cs)⟩ : LoadError)
  match Json.readValue (Json.fuelFor cs) Json.nestingLimit cs with
  | .error stop => .error (fail stop)
  | .ok (j, rest) =>
    match Constant.ofJson? j with
    | none => .error ⟨.mismatch .notConstant, none⟩
    | some c =>
      match Json.readEnd rest with
      | .error stop => .error (fail stop)
      | .ok _ => .ok c

end ScriptTree
