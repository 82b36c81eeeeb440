import DocTable.Number.Binary64

/-!
The text of a floating point number: the fewest decimal digits that read back as the number, and
of those the nearest to it. `Layout` holds the choices of the written form.
-/

namespace DocTable

namespace Binary64

/-- The exponent `k` with `10 ^ k ≤ x < 10 ^ (k + 1)`, for `x` a positive number of units. -/
def leadingExponent (units : Nat) : Int :=
  let whole := units / Nat.pow 2 unitExponent
  if whole = 0 then -(digitCount (Nat.pow 2 unitExponent / units) : Int)
  else (digitCount whole : Int) - 1

namespace Magnitude

/-- Whether `coefficient * 10 ^ exponent` reads back as this size. -/
def readsBack (m : Magnitude) (coefficient : Nat) (exponent : Int) : Bool :=
  ofScientific false coefficient exponent = finite false m

/-- The nearest of the two neighbours of this size on the grid of multiples of
`10 ^ exponent` that reads back, if one does; a tie goes to the even one. -/
def onGrid? (m : Magnitude) (exponent : Int) : Option Nat :=
  let num := if exponent < 0 then m.units * Nat.pow 10 (-exponent).toNat else m.units
  let den :=
    if exponent < 0 then Nat.pow 2 unitExponent
    else Nat.pow 2 unitExponent * Nat.pow 10 exponent.toNat
  let near := roundHalfEven num den
  let far := if near = num / den then near + 1 else num / den
  if m.readsBack near exponent then some near
  else if m.readsBack far exponent then some far
  else none

/-- The first of the grids with `digits`, `digits + 1`, … significant digits, `tries` in all, on
which a neighbour reads back; if there is none, the exact value. -/
def shortestFrom (m : Magnitude) (leading : Int) : (tries digits : Nat) → Nat × Int
  | 0, _ => (m.units * Nat.pow 5 unitExponent, -(unitExponent : Int))
  | tries + 1, digits =>
    let exponent := leading - digits + 1
    match m.onGrid? exponent with
    | some coefficient => (coefficient, exponent)
    | none => shortestFrom m leading tries (digits + 1)

/-- Coefficient and exponent of ten of the shortest decimal that reads back as this size,
without trailing zeros. -/
def shortest (m : Magnitude) : Nat × Int :=
  if m.units = 0 then (0, 0)
  else
    let (coefficient, exponent) := m.shortestFrom (leadingExponent m.units) 17 1
    let (stripped, zeros) := stripZeros 20 coefficient
    (stripped, exponent + zeros)

end Magnitude

/-- How the digits of a number are set out. -/
structure Layout where
  /-- The point stands among the digits, or next to their zeros, as long as its place is in
  this range; else the number is written with an exponent. -/
  firstPlace : Int
  lastPlace : Int
  /-- The least number of digits of an exponent. -/
  exponentDigits : Nat
  nanText : String
  infinityText : String

/-- Numbers from `0.0001` to below `1e+16` are written with a point and at least one digit on
either side of it. -/
def plainLayout : Layout :=
  ⟨-3, 16, 2, "nan", "inf"⟩

def padded (width : Nat) (cs : List Char) : List Char :=
  List.replicate (width - cs.length) '0' ++ cs

/-- Digits set out around a point that stands after the first `place` of them. -/
def setOut (layout : Layout) (digits : List Char) (place : Int) : List Char :=
  if layout.firstPlace ≤ place ∧ place ≤ layout.lastPlace then
    if place ≤ 0 then
      '0' :: '.' :: (List.replicate (-place).toNat '0' ++ digits)
    else if digits.length ≤ place.toNat then
      digits ++ List.replicate (place.toNat - digits.length) '0' ++ ['.', '0']
    else
      digits.take place.toNat ++ '.' :: digits.drop place.toNat
  else
    let exponent := place - 1
    let sign := if exponent < 0 then '-' else '+'
    let mantissa := match digits with
      | [] => []
      | [d] => [d]
      | d :: ds => d :: '.' :: ds
    mantissa ++ 'e' :: sign :: padded layout.exponentDigits (decimalDigits exponent.natAbs)

/-- The text of a number in a layout. -/
def textIn (layout : Layout) : Binary64 → String
  | nan => layout.nanText
  | infinite negative => (if negative then "-" else "") ++ layout.infinityText
  | finite negative m =>
    let (coefficient, exponent) := m.shortest
    let digits := decimalDigits coefficient
    let body := setOut layout digits (digits.length + exponent)
    String.ofList (if negative then '-' :: body else body)

/-- The text of a number: shortest digits, positional from `0.0001` to below `1e+16`. -/
def toText (x : Binary64) : String :=
  x.textIn plainLayout

end Binary64

end DocTable
