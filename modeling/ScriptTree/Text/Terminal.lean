/-
  ScriptTree/Text/Terminal.lean
  =============================
  **Text for a terminal.**  Parts of a report are set off by control sequences.  Where there is no
  terminal to obey them, `plain` takes all sequences out again, whether the report or something
  quoted in it brought them, and the lone control characters with them; the blanks among the control
  characters stay.

  A sequence starts with an escape character, and a new one breaks off whatever was open.  Blanks
  are shown even in the middle of a short sequence, and so is the text behind them, up to the next
  character that is not shown; there the sequence goes on.
-/
namespace ScriptTree.Text.Terminal

/-! ### Setting off parts of a report -/

/-- The character that starts a control sequence. -/
def escape : Char := '\x1b'

/-- The ways in which a part of a report is set off. -/
inductive Style where
  /-- The word that opens a complaint. -/
  | heading
  /-- What was given and is wrong. -/
  | invalid
  /-- What is to be typed as it stands. -/
  | literal
  deriving DecidableEq, Repr

/-- The numbers that switch a style on. -/
def Style.codes : Style → String
  | .heading => "1;31"
  | .invalid => "33"
  | .literal => "1"

/-- A switch of the way in which characters are shown. -/
def switch (codes : String) : String := String.singleton escape ++ "[" ++ codes ++ "m"

/-- A text in a style; behind it all styles are off. -/
def Style.apply (s : Style) (text : String) : String := switch s.codes ++ text ++ switch "0"

/-! ### Characters -/

/-- The control characters that are blanks. -/
def isBlankControl (c : Char) : Bool := c = '\t' || c = '\n' || c = '\x0c' || c = '\r'

/-- Whether a character is text: all but the control characters of ASCII, blanks excepted. -/
def isText (c : Char) : Bool := 0x20 ≤ c.toNat && c.toNat ≠ 0x7f || isBlankControl c

/-- Whether the code point of a character lies between two bounds. -/
def isWithin (low high : Nat) (c : Char) : Bool := low ≤ c.toNat && c.toNat ≤ high

/-- Whether one of the bytes of a character, beyond the first, ends a control string. -/
def holdsTerminator (c : Char) : Bool :=
  (String.singleton c).toUTF8.data.toList.tail.any (· == 0x9c)

/-! ### Control sequences -/

/-- Where in a control sequence a reader stands. -/
inductive Sequence where
  /-- Outside of all sequences. -/
  | outside
  /-- Behind the escape character. -/
  | started
  /-- Behind the escape character and some intermediate characters. -/
  | designating
  /-- In a control function with parameters. -/
  | function
  /-- At the start of a device control string, in its parameters, and behind those. -/
  | deviceStart
  | deviceParams
  | deviceMarks
  /-- In a string that only a terminator ends. -/
  | string
  /-- In a command string, which a bell ends. -/
  | command
  deriving DecidableEq, Repr

namespace Sequence

/-- Whether a character found here is shown. -/
def shows (s : Sequence) (c : Char) : Bool :=
  match s with
  | .outside => isText c
  | .started | .designating | .function => isBlankControl c
  | _ => false

/-- Where the character behind an escape character leads. -/
def start (c : Char) : Sequence :=
  if c = '[' then .function
  else if c = ']' then .command
  else if c = 'P' then .deviceStart
  else if c = 'X' || c = '^' || c = '_' then .string
  else if isWithin 0x20 0x2f c then .designating
  else if isWithin 0x30 0x7e c then .outside
  else .started

/-- Where a character of a device control string leads while its parameters are read; `repeated`
    are the parameter characters that may follow there. -/
def device (s : Sequence) (repeated : Char → Bool) (c : Char) : Sequence :=
  if isWithin 0x20 0x2f c then .deviceMarks
  else if isWithin 0x30 0x3f c then (if repeated c then .deviceParams else .string)
  else if isWithin 0x40 0x7e c then .string
  else s

/-- Where a character leads.  A cancelling character ends every sequence, and an escape character
    starts a new one. -/
def next (s : Sequence) (c : Char) : Sequence :=
  if c = escape then .started
  else if c.toNat = 0x18 || c.toNat = 0x1a then .outside
  else
    match s with
    | .outside => .outside
    | .started => start c
    | .designating => if isWithin 0x30 0x7e c then .outside else s
    | .function => if isWithin 0x40 0x7e c then .outside else s
    | .deviceStart => s.device (fun _ => true) c
    | .deviceParams => s.device (isWithin 0x30 0x3b) c
    | .deviceMarks => s.device (fun _ => false) c
    | .string => if holdsTerminator c then .outside else s
    | .command => if c.toNat = 0x07 then .outside else s

/-- Where a sequence is taken up again behind a character that was shown: a character beyond ASCII
    ends it. -/
def behindShown (s : Sequence) (c : Char) : Sequence := if c.toNat < 0x80 then s else .outside

end Sequence

/-! ### Plain text -/

/-- The characters that are shown.  `showing` tells that the last character was shown, even if the
    sequence `s` is still open. -/
def shown (showing : Bool) (s : Sequence) : List Char → List Char
  | [] => []
  | c :: rest =>
    if showing && isText c || s.shows c then c :: shown true (s.behindShown c) rest
    else shown false (s.next c) rest

/-- The text without control sequences and control characters. -/
def plain (text : String) : String := String.ofList (shown false .outside text.toList)

end ScriptTree.Text.Terminal
