/-
  ScriptTree/Json/Reader.lean
  ===========================
  **Reading JSON text.**  `readValue` takes one value off the front of a text.  Its first argument
  counts the brackets that may still be opened, which is both the nesting limit of the format as
  read here and what makes the reader total; loops over the items of a bracket are bounded by the
  length of the text.  The two loops take the reader of an item or member as an argument, so that a
  caller can treat some members in its own way while the text is read.
-/
import ScriptTree.Json.Number

namespace ScriptTree.Json

/-- Blanks between tokens. -/
def isBlank (c : Char) : Bool := c = ' ' || c = '\n' || c = '\t' || c = '\x0d'

/-- The text from its first character that is no blank. -/
def skipBlanks (cs : List Char) : List Char := cs.dropWhile isBlank

/-- The rest of a word such as `null`, character by character. -/
def readWord : List Char → List Char → Reading SyntaxFault Unit
  | [], cs => .ok ((), cs)
  | _ :: _, [] => stopAt .endInValue []
  | e :: es, c :: cs => if c = e then readWord es cs else stopOn .expectedIdent (c :: cs)

/-! ### Strings -/

/-- The value of a hexadecimal digit. -/
def hexDigit? (c : Char) : Option Nat :=
  if c.isDigit then some (c.toNat - '0'.toNat)
  else if 'a' ≤ c ∧ c ≤ 'f' then some (c.toNat - 'a'.toNat + 10)
  else if 'A' ≤ c ∧ c ≤ 'F' then some (c.toNat - 'A'.toNat + 10)
  else none

/-- The value of four hexadecimal digits. -/
def hexValue? (a b c d : Char) : Option Nat := do
  let w ← hexDigit? a
  let x ← hexDigit? b
  let y ← hexDigit? c
  let z ← hexDigit? d
  return ((w * 16 + x) * 16 + y) * 16 + z

/-- A code unit that starts a pair. -/
def isLeading (n : Nat) : Bool := 0xd800 ≤ n && n ≤ 0xdbff

/-- A code unit that ends a pair. -/
def isTrailing (n : Nat) : Bool := 0xdc00 ≤ n && n ≤ 0xdfff

/-- The character of a pair of code units. -/
def pairChar (n m : Nat) : Char := Char.ofNat ((n - 0xd800) * 0x400 + (m - 0xdc00) + 0x10000)

/-- Four bytes that are no hexadecimal number, or the end of the text before four bytes. -/
def hexFault {α : Type} (cs : List Char) : Reading SyntaxFault α :=
  if byteCount cs < 4 then stopAt .endInString [] else .error ⟨.invalidEscape, cs, 4⟩

/-- The character that a letter behind a backslash stands for. -/
def escaped? : Char → Option Char
  | '"' => some '"'
  | '\\' => some '\\'
  | '/' => some '/'
  | 'b' => some '\x08'
  | 'f' => some '\x0c'
  | 'n' => some '\n'
  | 'r' => some '\x0d'
  | 't' => some '\t'
  | _ => none

/-- The characters of a string up to its closing quote; `acc` holds those before, last first. -/
def readChars (acc : List Char) : List Char → Reading SyntaxFault String
  | [] => stopAt .endInString []
  | '"' :: rest => .ok (String.ofList acc.reverse, rest)
  | '\\' :: tail =>
    match tail with
    | [] => stopAt .endInString []
    | 'u' :: hex =>
      match hex with
      | a :: b :: c :: d :: rest =>
        match hexValue? a b c d with
        | none => hexFault hex
        | some n =>
          if isTrailing n then stopAt .loneSurrogate rest
          else if isLeading n then
            match rest with
            | [] => stopAt .endInString []
            | '\\' :: second =>
              match second with
              | [] => stopAt .endInString []
              | 'u' :: low =>
                match low with
                | e :: f :: g :: h :: rest' =>
                  match hexValue? e f g h with
                  | none => hexFault low
                  | some m =>
                    if isTrailing m then readChars (pairChar n m :: acc) rest'
                    else stopAt .loneSurrogate rest'
                | _ => hexFault low
              | _ => stopOn .endOfHexEscape second
            | _ => stopOn .endOfHexEscape rest
          else readChars (Char.ofNat n :: acc) rest
      | _ => hexFault hex
    | e :: rest =>
      match escaped? e with
      | some c => readChars (c :: acc) rest
      | none => stopOn .invalidEscape tail
  | c :: rest =>
    if c.toNat < 0x20 then stopOn .controlCharacter (c :: rest) else readChars (c :: acc) rest

/-- A string, its opening quote already taken. -/
def readString (cs : List Char) : Reading SyntaxFault String := readChars [] cs

/-! ### Brackets -/

/-- Whether another item follows in a list: `true` with the text of the item, or `false` with the
    text behind the closing bracket. -/
def nextItem (first : Bool) (cs : List Char) : Reading SyntaxFault Bool :=
  match skipBlanks cs with
  | [] => stopOn .endInList []
  | ']' :: rest => .ok (false, rest)
  | c :: rest =>
    if first then .ok (true, c :: rest)
    else if c = ',' then
      match skipBlanks rest with
      | [] => stopOn .endInValue []
      | ']' :: after => stopOn .trailingComma (']' :: after)
      | text => .ok (true, text)
    else stopOn .expectedListSeparator (c :: rest)

/-- Whether another member follows in an object: `true` with the text behind the opening quote of
    its key, or `false` with the text behind the closing brace. -/
def nextMember (first : Bool) (cs : List Char) : Reading SyntaxFault Bool :=
  match skipBlanks cs with
  | [] => stopOn .endInObject []
  | '\x7d' :: rest => .ok (false, rest)
  | c :: rest =>
    if first then
      if c = '"' then .ok (true, rest) else stopOn .keyNotString (c :: rest)
    else if c = ',' then
      match skipBlanks rest with
      | [] => stopOn .endInValue []
      | '"' :: after => .ok (true, after)
      | '\x7d' :: after => stopOn .trailingComma ('\x7d' :: after)
      | text => stopOn .keyNotString text
    else stopOn .expectedObjectSeparator (c :: rest)

/-- The colon behind a key. -/
def readColon (cs : List Char) : Reading SyntaxFault Unit :=
  match skipBlanks cs with
  | [] => stopOn .endInObject []
  | ':' :: rest => .ok ((), rest)
  | text => stopOn .expectedColon text

/-- The items of a list up to its closing bracket; `acc` holds those before, last first. -/
def readItems {ε α : Type} (fault : SyntaxFault → ε) (item : List Char → Reading ε α) :
    Nat → Bool → List α → List Char → Except (Stop ε) (List α × List Char)
  | 0, _, _, cs => .error ⟨fault .endInList, cs, 0⟩
  | fuel + 1, first, acc, cs => do
    let (more, text) ← (nextItem first cs).mapError (Stop.map fault)
    if more then
      let (a, rest) ← item text
      readItems fault item fuel false (a :: acc) rest
    else
      return (acc.reverse, text)

/-- The members of an object up to its closing brace.  Each key is handed to `member` with what was
    gathered so far and the text behind the key. -/
def readMembers {ε σ : Type} (fault : SyntaxFault → ε)
    (member : σ → String → List Char → Reading ε σ) :
    Nat → Bool → σ → List Char → Except (Stop ε) (σ × List Char)
  | 0, _, _, cs => .error ⟨fault .endInObject, cs, 0⟩
  | fuel + 1, first, acc, cs => do
    let (more, text) ← (nextMember first cs).mapError (Stop.map fault)
    if more then
      let (key, rest) ← (readString text).mapError (Stop.map fault)
      let (acc, rest) ← member acc key rest
      readMembers fault member fuel false acc rest
    else
      return (acc, text)

/-- Puts the value behind a key in front of the members gathered so far. -/
def readMember (value : List Char → Reading SyntaxFault Json) (acc : List (String × Json))
    (key : String) (cs : List Char) :
    Except (Stop SyntaxFault) (List (String × Json) × List Char) := do
  let (_, rest) ← readColon cs
  let (j, rest) ← value rest
  return ((key, j) :: acc, rest)

/-! ### Values -/

/-- A value that is neither list nor object; the text starts with its first character. -/
def readScalar : List Char → Except (Stop SyntaxFault) (Json × List Char)
  | [] => stopOn .endInValue []
  | 'n' :: rest => do
    let (_, rest) ← readWord ['u', 'l', 'l'] rest
    return (.null, rest)
  | 't' :: rest => do
    let (_, rest) ← readWord ['r', 'u', 'e'] rest
    return (.bool true, rest)
  | 'f' :: rest => do
    let (_, rest) ← readWord ['a', 'l', 's', 'e'] rest
    return (.bool false, rest)
  | '-' :: rest => readNumber true rest
  | '"' :: rest => do
    let (s, rest) ← readString rest
    return (.str s, rest)
  | c :: rest => if c.isDigit then readNumber false (c :: rest) else stopOn .expectedValue (c :: rest)

/-- The value at the front of a text.  `fuel` bounds the items of a bracket, the second number is
    how many brackets may still be opened. -/
def readValue (fuel : Nat) : Nat → List Char → Except (Stop SyntaxFault) (Json × List Char)
  | budget, cs =>
    match skipBlanks cs with
    | '[' :: rest =>
      match budget with
      | 0 => stopOn .nestingTooDeep ('[' :: rest)
      | budget + 1 => do
        let (items, rest) ← readItems id (readValue fuel budget) fuel true [] rest
        return (.arr items, rest)
    | '\x7b' :: rest =>
      match budget with
      | 0 => stopOn .nestingTooDeep ('\x7b' :: rest)
      | budget + 1 => do
        let (members, rest) ← readMembers id (readMember (readValue fuel budget)) fuel true [] rest
        return (.obj members.reverse, rest)
    | text => readScalar text

/-- How many brackets may be open at once. -/
def nestingLimit : Nat := 127

/-- Enough fuel for every loop over a text. -/
def fuelFor (text : List Char) : Nat := text.length + 1

/-- Nothing but blanks may follow a value. -/
def readEnd (cs : List Char) : Reading SyntaxFault Unit :=
  match skipBlanks cs with
  | [] => .ok ((), [])
  | text => stopOn .trailingCharacters text

/-- The value that a whole text spells, repeated keys kept. -/
def readText (text : List Char) : Except (Stop SyntaxFault) Json := do
  let (j, rest) ← readValue (fuelFor text) nestingLimit text
  let _ ← readEnd rest
  return j

/-- Why and where a text is not JSON. -/
structure SyntaxError where
  fault : SyntaxFault
  position : Position
  deriving DecidableEq, Repr

/-- A position behind a message. -/
def Position.suffix (p : Position) : String :=
  " at line " ++ Nat.repr p.line ++ " column " ++ Nat.repr p.column

/-- The wording of a syntax error. -/
def SyntaxError.message (e : SyntaxError) : String := e.fault.message ++ e.position.suffix

/-- The value that a text spells, each key of an object once. -/
def parse (text : String) : Except SyntaxError Json :=
  match readText text.toList with
  | .ok j => .ok j.merged
  | .error stop => .error ⟨stop.cause, stop.position text.toList⟩

end ScriptTree.Json
