/-
  ScriptTree/Decimal/Shortest.lean
  ================================
  **The fewest decimal digits that read back as the same number.**

  A finite double is a natural number times a power of two.  The reals that round to it form an
  interval, closed when the significand is even.  For one digit, two digits and so on, the two
  neighbours of the number on that decimal grid are tested against the interval in exact
  arithmetic: the first grid with a hit wins, of two hits the nearer, and an exact tie goes as the
  caller says.
-/
namespace ScriptTree.Decimal

/-- Which of two equally near decimals is taken. -/
inductive Tie where
  | toEven
  | awayFromZero
  deriving DecidableEq, Repr

/-- A magnitude `significand * 2 ^ exponent`.  `narrowBelow` says that the next smaller double is
    only half as far away as the next larger one. -/
structure Binary where
  significand : Nat
  exponent : Int
  narrowBelow : Bool
  deriving DecidableEq, Repr

/-- The fraction field of a double's bits. -/
def fractionField (bits : UInt64) : Nat := bits.toNat % Nat.pow 2 52

/-- The biased exponent field of a double's bits. -/
def exponentField (bits : UInt64) : Nat := bits.toNat / Nat.pow 2 52 % Nat.pow 2 11

/-- Whether the sign bit is set. -/
def isNegative (bits : UInt64) : Bool := Nat.pow 2 63 ≤ bits.toNat

/-- The magnitude of a finite double. -/
def Binary.ofBits (bits : UInt64) : Binary :=
  let fraction := fractionField bits
  let biased := exponentField bits
  if biased = 0 then
    ⟨fraction, -1074, false⟩
  else
    ⟨Nat.pow 2 52 + fraction, (biased : Int) - 1075, fraction = 0 && biased ≠ 1⟩

/-- A decimal `digits * 10 ^ exponent`. -/
structure Digits where
  digits : Nat
  exponent : Int
  deriving DecidableEq, Repr

namespace Binary

/-- The number, in quarters of its unit in the last place. -/
def quarters (x : Binary) : Nat := 4 * x.significand

/-- The lower end of the reals that round to the number, in quarters of its last unit. -/
def low (x : Binary) : Nat := x.quarters - if x.narrowBelow then 1 else 2

/-- The upper end of the reals that round to the number, in quarters of its last unit. -/
def high (x : Binary) : Nat := x.quarters + 2

/-- The factors that bring a quarter of the last unit and the grid `10 ^ e` to a common measure. -/
def measures (x : Binary) (e : Int) : Nat × Nat :=
  let q := x.exponent - 2
  (Nat.pow 2 q.toNat * Nat.pow 10 (-e).toNat, Nat.pow 10 e.toNat * Nat.pow 2 (-q).toNat)

/-- Whether `d * 10 ^ e` rounds to the number. -/
def reads (x : Binary) (e : Int) (d : Nat) : Bool :=
  let (quarter, grid) := x.measures e
  if x.significand % 2 = 0 then
    x.low * quarter ≤ d * grid && d * grid ≤ x.high * quarter
  else
    x.low * quarter < d * grid && d * grid < x.high * quarter

/-- The nearer of `d` and `d + 1` on the grid `10 ^ e`. -/
def nearer (x : Binary) (tie : Tie) (e : Int) (d : Nat) : Nat :=
  let (quarter, grid) := x.measures e
  match compare (2 * (x.quarters * quarter)) ((2 * d + 1) * grid) with
  | .lt => d
  | .gt => d + 1
  | .eq =>
    match tie with
    | .toEven => if d % 2 = 0 then d else d + 1
    | .awayFromZero => d + 1

/-- The point of the grid `10 ^ e` that stands for the number, if one does. -/
def onGrid? (x : Binary) (tie : Tie) (e : Int) : Option Digits :=
  let (quarter, grid) := x.measures e
  let d := x.quarters * quarter / grid
  match x.reads e d, x.reads e (d + 1) with
  | true, true => some ⟨x.nearer tie e d, e⟩
  | true, false => some ⟨d, e⟩
  | false, true => some ⟨d + 1, e⟩
  | false, false => none

/-- A power of ten that lifts every nonzero double above one. -/
def lift : Nat := 350

/-- The `p` with `10 ^ (p - 1) ≤ x < 10 ^ p`, for a nonzero number. -/
def point (x : Binary) : Int :=
  let (quarter, grid) := x.measures (-(lift : Int))
  ((Nat.toDigits 10 (x.quarters * quarter / grid)).length : Int) - lift

end Binary

/-- Digits without trailing zeros; `fuel` bounds their number. -/
def Digits.trimAux : Nat → Digits → Digits
  | 0, d => d
  | fuel + 1, d =>
    if d.digits % 10 = 0 && d.digits ≠ 0 then trimAux fuel ⟨d.digits / 10, d.exponent + 1⟩ else d

/-- The same decimal without trailing zeros. -/
def Digits.trim (d : Digits) : Digits := trimAux d.digits d

/-- The shortest decimal that reads back as the number.  Seventeen digits always suffice. -/
def Binary.shortest (x : Binary) (tie : Tie) : Digits :=
  let p := x.point
  let hit := (List.range 17).findSome? fun (n : Nat) => x.onGrid? tie (p - n - 1)
  (hit.getD ⟨x.significand, x.exponent⟩).trim

end ScriptTree.Decimal
