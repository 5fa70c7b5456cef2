/-
  ScriptTree/Decimal/Layout.lean
  ==============================
  **How a number is spelled.**  The digits come from `Shortest`; a `Layout` says where positional
  notation ends, how an exponent is written, which way a tie goes and what stands for the values
  that are no numbers.
-/
import ScriptTree.Decimal.Shortest

namespace ScriptTree.Decimal

/-- The digits of a natural number. -/
def natText (n : Nat) : String := String.ofList (Nat.toDigits 10 n)

/-- The usual spelling of an integer. -/
def intText (n : Int) : String :=
  if n < 0 then "-" ++ natText n.natAbs else natText n.natAbs

/-- The decisions of one spelling of floating point numbers.  With `0.d₁d₂… * 10 ^ p` for the
    number, it is written positionally when `leastPoint ≤ p ≤ greatestPoint`. -/
structure Layout where
  tie : Tie
  leastPoint : Int
  greatestPoint : Int
  /-- What stands before an exponent that is not negative. -/
  exponentSign : String
  notANumber : String
  infinity : String
  negativeInfinity : String

/-- Digits with a point after the first `p` of them, at least one on each side. -/
def positional (ds : List Char) (p : Int) : String :=
  if p ≤ 0 then
    "0." ++ String.ofList (List.replicate (-p).toNat '0' ++ ds)
  else if (ds.length : Int) ≤ p then
    String.ofList (ds ++ List.replicate (p.toNat - ds.length) '0') ++ ".0"
  else
    String.ofList (ds.take p.toNat) ++ "." ++ String.ofList (ds.drop p.toNat)

/-- One digit before the point, the others after it, and the exponent. -/
def Layout.scientific (l : Layout) (ds : List Char) (p : Int) : String :=
  let exponent := p - 1
  let rest := ds.drop 1
  String.ofList (ds.take 1)
    ++ (if rest.isEmpty then "" else "." ++ String.ofList rest)
    ++ "e" ++ (if exponent < 0 then "" else l.exponentSign) ++ intText exponent

/-- The spelling of a magnitude given by its shortest digits. -/
def Layout.digitsText (l : Layout) (d : Digits) : String :=
  let ds := Nat.toDigits 10 d.digits
  let p := (ds.length : Int) + d.exponent
  if l.leastPoint ≤ p && p ≤ l.greatestPoint then positional ds p else l.scientific ds p

/-- The spelling of a floating point number given by its bits. -/
def Layout.bitsText (l : Layout) (bits : UInt64) : String :=
  if exponentField bits = 2047 then
    if fractionField bits ≠ 0 then l.notANumber
    else if isNegative bits then l.negativeInfinity else l.infinity
  else
    let x := Binary.ofBits bits
    (if isNegative bits then "-" else "")
      ++ (if x.significand = 0 then "0.0" else l.digitsText (x.shortest l.tie))

/-- The spelling of a floating point number. -/
def Layout.text (l : Layout) (x : Float) : String := l.bitsText x.toBits

end ScriptTree.Decimal
