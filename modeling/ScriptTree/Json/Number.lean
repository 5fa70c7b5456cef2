/-
  ScriptTree/Json/Number.lean
  ===========================
  **Reading JSON numbers.**  Digits are gathered into a significand of at most 64 bits; what no
  longer fits only moves the decimal exponent.  A number without point and exponent stays an
  integer when it is not negative and fits 64 bits, or is negative and fits 64 bits with a sign.
  Every other number is one multiplication or division of the rounded significand by a rounded
  power of ten, so it need not be the nearest floating point number.
-/
import ScriptTree.Json.Basic
import ScriptTree.Json.Stop

namespace ScriptTree.Json

/-- The greatest significand. -/
def maxSignificand : Nat := Nat.pow 2 64 - 1

/-- The greatest exponent that is read as a number. -/
def maxExponent : Nat := Nat.pow 2 31 - 1

/-- The greatest power of ten that is a floating point number. -/
def maxPower : Nat := 308

/-- The value of a decimal digit. -/
def digitValue (c : Char) : Nat := c.toNat - '0'.toNat

/-- The significand after one more digit, unless it no longer fits. -/
def pushDigit? (significand : Nat) (c : Char) : Option Nat :=
  let next := significand * 10 + digitValue c
  if next ≤ maxSignificand then some next else none

/-- A number read so far: `significand * 10 ^ exponent`. -/
structure Scaled where
  significand : Nat
  exponent : Int
  deriving DecidableEq, Repr

/-- The digits before the point.  Once a digit does not fit, it and all that follow raise the
    exponent; the flag tells that this happened. -/
def integerDigits (n : Nat) : List Char → (Nat × Nat × Bool) × List Char
  | [] => ((n, 0, false), [])
  | c :: rest =>
    if c.isDigit then
      match pushDigit? n c with
      | some next => integerDigits next rest
      | none =>
        let more := rest.takeWhile Char.isDigit
        ((n, more.length + 1, true), rest.dropWhile Char.isDigit)
    else
      ((n, 0, false), c :: rest)

/-- The digits after the point.  Each digit that fits lowers the exponent; once one does not fit, it
    and all that follow are dropped. -/
def fractionDigits (x : Scaled) : List Char → Scaled × List Char
  | [] => (x, [])
  | c :: rest =>
    if c.isDigit then
      match pushDigit? x.significand c with
      | some next => fractionDigits ⟨next, x.exponent - 1⟩ rest
      | none => (x, rest.dropWhile Char.isDigit)
    else
      (x, c :: rest)

/-- The number with `n` added to its exponent, or taken off it. -/
def Scaled.shift (x : Scaled) (lowers : Bool) (n : Nat) : Scaled :=
  ⟨x.significand, if lowers then x.exponent - n else x.exponent + n⟩

/-- Divides by the greatest power of ten until the exponent is in reach or nothing is left; `fuel`
    bounds the divisions. -/
def scaleAux : Nat → Float → Int → Option Float
  | 0, _, _ => none
  | fuel + 1, f, e =>
    if e.natAbs ≤ maxPower then
      let power := Float.ofScientific 1 false e.natAbs
      if 0 ≤ e then
        let product := f * power
        if product.isInf then none else some product
      else
        some (f / power)
    else if f == 0 then some f
    else if 0 ≤ e then none
    else scaleAux fuel (f / Float.ofScientific 1 false maxPower) (e + maxPower)

/-- The floating point number for a significand and an exponent, if it is in range. -/
def Scaled.toFloat? (x : Scaled) : Option Float :=
  scaleAux (x.exponent.natAbs + 1) (UInt64.ofNat x.significand).toFloat x.exponent

/-- The number for what was read, with its sign. -/
def finishFloat (negative : Bool) (x : Scaled) (unread : List Char) : Reading SyntaxFault Json :=
  match x.toFloat? with
  | some f => .ok (.float (if negative then -f else f), unread)
  | none => stopAt .numberOutOfRange unread

/-- The digits of an exponent, whose value is `n` so far.  An exponent beyond all bounds is out of
    range when it is positive and something stands before it, and gives zero otherwise. -/
def exponentDigits (negative lowers : Bool) (x : Scaled) (n : Nat) :
    List Char → Reading SyntaxFault Json
  | [] => finishFloat negative (x.shift lowers n) []
  | c :: rest =>
    if c.isDigit then
      let next := n * 10 + digitValue c
      if next ≤ maxExponent then
        exponentDigits negative lowers x next rest
      else if x.significand ≠ 0 && !lowers then
        stopAt .numberOutOfRange rest
      else
        .ok (.float (if negative then -0.0 else 0.0), rest.dropWhile Char.isDigit)
    else
      finishFloat negative (x.shift lowers n) (c :: rest)

/-- The part behind the mark of an exponent, its sign taken: at least one digit. -/
def exponentFrom (negative lowers : Bool) (x : Scaled) : List Char → Reading SyntaxFault Json
  | [] => stopAt .endInValue []
  | c :: rest =>
    if c.isDigit then exponentDigits negative lowers x (digitValue c) rest
    else stopOn .invalidNumber (c :: rest)

/-- The part behind the mark of an exponent. -/
def readExponent (negative : Bool) (x : Scaled) : List Char → Reading SyntaxFault Json
  | '+' :: rest => exponentFrom negative false x rest
  | '-' :: rest => exponentFrom negative true x rest
  | cs => exponentFrom negative false x cs

/-- Whether a character marks an exponent. -/
def isExponentMark (c : Char) : Bool := c = 'e' || c = 'E'

/-- What may follow the digits of a number with a point: an exponent or nothing. -/
def readTail (negative : Bool) (x : Scaled) : List Char → Reading SyntaxFault Json
  | [] => finishFloat negative x []
  | c :: rest =>
    if isExponentMark c then readExponent negative x rest else finishFloat negative x (c :: rest)

/-- The part behind the point: at least one digit, then an exponent or nothing. -/
def readFraction (negative : Bool) (x : Scaled) : List Char → Reading SyntaxFault Json
  | [] => stopOn .endInValue []
  | c :: rest =>
    if c.isDigit then
      let (y, unread) := fractionDigits x (c :: rest)
      readTail negative y unread
    else
      stopOn .invalidNumber (c :: rest)

/-- A number of digits only. -/
def wholeNumber (negative : Bool) (n : Nat) : Json :=
  if negative then
    if n = 0 || Nat.pow 2 63 < n then .float (-(UInt64.ofNat n).toFloat) else .int (-n)
  else
    .int n

/-- What follows the digits before the point. -/
def readAfterInteger (negative : Bool) (n extra : Nat) (long : Bool) :
    List Char → Reading SyntaxFault Json
  | '.' :: rest => readFraction negative ⟨n, extra⟩ rest
  | cs =>
    match cs with
    | c :: rest =>
      if isExponentMark c then readExponent negative ⟨n, extra⟩ rest
      else if long then finishFloat negative ⟨n, extra⟩ cs
      else .ok (wholeNumber negative n, cs)
    | [] => if long then finishFloat negative ⟨n, extra⟩ [] else .ok (wholeNumber negative n, [])

/-- A number, its minus sign already taken.  A leading zero stands alone. -/
def readNumber (negative : Bool) : List Char → Reading SyntaxFault Json
  | [] => stopAt .endInValue []
  | '0' :: rest =>
    match rest with
    | c :: _ =>
      if c.isDigit then stopOn .invalidNumber rest else readAfterInteger negative 0 0 false rest
    | [] => readAfterInteger negative 0 0 false []
  | c :: rest =>
    if c.isDigit then
      let ((n, extra, long), unread) := integerDigits (digitValue c) rest
      readAfterInteger negative n extra long unread
    else
      stopOn .invalidNumber (c :: rest)

end ScriptTree.Json
