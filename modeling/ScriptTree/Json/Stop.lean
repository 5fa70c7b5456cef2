/-
  ScriptTree/Json/Stop.lean
  =========================
  **Why and where reading ends.**  Readers work on the characters still unread.  A reader that gives
  up says why, what was unread then, and how many bytes of the unread text it blames as well; the
  position in the whole text is computed from that afterwards.
-/
namespace ScriptTree.Json

/-- What can be wrong with a text as JSON. -/
inductive SyntaxFault where
  | endInValue
  | endInList
  | endInObject
  | endInString
  | expectedColon
  | expectedListSeparator
  | expectedObjectSeparator
  | expectedIdent
  | expectedValue
  | keyNotString
  | trailingComma
  | trailingCharacters
  | invalidEscape
  | invalidNumber
  | numberOutOfRange
  | controlCharacter
  | loneSurrogate
  | endOfHexEscape
  | nestingTooDeep
  deriving DecidableEq, Repr

/-- The wording of a fault. -/
def SyntaxFault.message : SyntaxFault → String
  | .endInValue => "EOF while parsing a value"
  | .endInList => "EOF while parsing a list"
  | .endInObject => "EOF while parsing an object"
  | .endInString => "EOF while parsing a string"
  | .expectedColon => "expected `:`"
  | .expectedListSeparator => "expected `,` or `]`"
  | .expectedObjectSeparator => "expected `,` or `\x7d`"
  | .expectedIdent => "expected ident"
  | .expectedValue => "expected value"
  | .keyNotString => "key must be a string"
  | .trailingComma => "trailing comma"
  | .trailingCharacters => "trailing characters"
  | .invalidEscape => "invalid escape"
  | .invalidNumber => "invalid number"
  | .numberOutOfRange => "number out of range"
  | .controlCharacter => "control character (\\u0000-\\u001F) found while parsing a string"
  | .loneSurrogate => "lone leading surrogate in hex escape"
  | .endOfHexEscape => "unexpected end of hex escape"
  | .nestingTooDeep => "recursion limit exceeded"

/-- A place in a text: lines count from one, columns are bytes since the last line break. -/
structure Position where
  line : Nat
  column : Nat
  deriving DecidableEq, Repr

/-- The number of bytes that a text takes. -/
def byteCount (cs : List Char) : Nat := cs.foldl (fun n c => n + c.utf8Size) 0

/-- The position reached from `p` after `n` more bytes of a text, or at its end. -/
def Position.advance (p : Position) : Nat → List Char → Position
  | 0, _ => p
  | _, [] => p
  | n + 1, c :: rest =>
    if c = '\n' then
      Position.advance ⟨p.line + 1, 0⟩ n rest
    else
      Position.advance ⟨p.line, p.column + min (n + 1) c.utf8Size⟩ (n + 1 - c.utf8Size) rest

/-- The position after the first `n` bytes of a text. -/
def Position.after (text : List Char) (n : Nat) : Position := Position.advance ⟨1, 0⟩ n text

/-- The end of a reading that failed: the cause, the text unread, and the bytes of it that are
    blamed too. -/
structure Stop (ε : Type) where
  cause : ε
  unread : List Char
  ahead : Nat

/-- The same stop for another cause. -/
def Stop.map {ε φ : Type} (f : ε → φ) (s : Stop ε) : Stop φ := ⟨f s.cause, s.unread, s.ahead⟩

/-- Where a stop lies in the text that was read. -/
def Stop.position {ε : Type} (s : Stop ε) (text : List Char) : Position :=
  Position.after text (byteCount text - byteCount s.unread + s.ahead)

/-- What a reader returns: a value and the text unread, or a stop. -/
abbrev Reading (ε α : Type) := Except (Stop ε) (α × List Char)

/-- A fault of the text already read. -/
def stopAt {α : Type} (fault : SyntaxFault) (unread : List Char) : Reading SyntaxFault α :=
  .error ⟨fault, unread, 0⟩

/-- A fault of the next byte of the text, if there is one. -/
def stopOn {α : Type} (fault : SyntaxFault) (unread : List Char) : Reading SyntaxFault α :=
  .error ⟨fault, unread, 1⟩

end ScriptTree.Json
