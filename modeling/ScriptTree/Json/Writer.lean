/-
  ScriptTree/Json/Writer.lean
  ===========================
  **Writing JSON text**, compactly: no blanks, members in their order, and escapes only where the
  format requires one.
-/
import ScriptTree.Decimal.Layout
import ScriptTree.Json.Basic

namespace ScriptTree.Json

/-- Floating point numbers in JSON: positional from 0.00001 to below 10 ^ 16, an exponent with its
    sign otherwise, ties to the even digit, and null for what is no number. -/
def floatLayout : Decimal.Layout where
  tie := .toEven
  leastPoint := -4
  greatestPoint := 16
  exponentSign := "+"
  notANumber := "null"
  infinity := "null"
  negativeInfinity := "null"

/-- A hexadecimal digit. -/
def hexChar (n : Nat) : Char := Nat.digitChar n

/-- One character of a string. -/
def escapeChar (c : Char) : List Char :=
  if c = '"' then ['\\', '"']
  else if c = '\\' then ['\\', '\\']
  else if c = '\x08' then ['\\', 'b']
  else if c = '\x0c' then ['\\', 'f']
  else if c = '\n' then ['\\', 'n']
  else if c = '\x0d' then ['\\', 'r']
  else if c = '\t' then ['\\', 't']
  else if c.toNat < 0x20 then
    ['\\', 'u', '0', '0', hexChar (c.toNat / 16), hexChar (c.toNat % 16)]
  else [c]

/-- A string with its quotes. -/
def stringChars (s : String) : List Char := '"' :: s.toList.flatMap escapeChar ++ ['"']

mutual

/-- The characters of a value. -/
def chars : Json → List Char
  | .null => "null".toList
  | .bool true => "true".toList
  | .bool false => "false".toList
  | .int n => (Decimal.intText n).toList
  | .float x => (floatLayout.text x).toList
  | .str s => stringChars s
  | .arr items => '[' :: itemsChars items ++ [']']
  | .obj members => '\x7b' :: membersChars members ++ ['\x7d']

/-- The items of an array with commas between them. -/
def itemsChars : List Json → List Char
  | [] => []
  | [j] => j.chars
  | j :: rest => j.chars ++ ',' :: itemsChars rest

/-- The members of an object with commas between them. -/
def membersChars : List (String × Json) → List Char
  | [] => []
  | [(k, j)] => stringChars k ++ ':' :: j.chars
  | (k, j) :: rest => stringChars k ++ ':' :: j.chars ++ ',' :: membersChars rest

end

/-- The text of a value. -/
def text (j : Json) : String := String.ofList j.chars

end ScriptTree.Json
