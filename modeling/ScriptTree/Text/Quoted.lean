/-
  ScriptTree/Text/Quoted.lean
  ===========================
  **Text quoted inside a message.**  The quote, the backslash and the common controls get a
  backslash, other unprintable characters are written by their code point in braces, and all else
  stands for itself.
-/
import ScriptTree.Text.Unprintable

namespace ScriptTree.Text

/-- One character of quoted text. -/
def quotedChar (c : Char) : List Char :=
  if c = '"' then ['\\', '"']
  else if c = '\\' then ['\\', '\\']
  else if c = '\n' then ['\\', 'n']
  else if c = '\r' then ['\\', 'r']
  else if c = '\t' then ['\\', 't']
  else if c.toNat = 0 then ['\\', '0']
  else if isUnprintable c then ['\\', 'u', '\x7b'] ++ Nat.toDigits 16 c.toNat ++ ['\x7d']
  else [c]

/-- Text in quotes, as messages show it. -/
def quoted (s : String) : String :=
  String.ofList ('"' :: s.toList.flatMap quotedChar ++ ['"'])

end ScriptTree.Text
