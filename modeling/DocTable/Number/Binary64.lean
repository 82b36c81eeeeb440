import DocTable.Number.Rounding

/-!
Floating point numbers of 64 bits, as exact values. A finite number is a whole number of units,
the unit being the smallest positive number `2 ^ -1074`; rounding and comparison are done on such
counts, in exact arithmetic.
-/

namespace DocTable

namespace Binary64

/-- The exponent of the unit: every finite number is a multiple of `2 ^ -unitExponent`. -/
def unitExponent : Nat := 1074

/-- The size of a finite number: `mantissa * 2 ^ shift` units, in the one form in which the
mantissa has its top bit set or there is nothing to shift. -/
structure Magnitude where
  mantissa : Nat
  shift : Nat
  fits : mantissa < Nat.pow 2 53 ∧ (shift = 0 ∨ Nat.pow 2 52 ≤ mantissa) ∧ shift ≤ 2045
deriving DecidableEq

namespace Magnitude

def zero : Magnitude := ⟨0, 0, by decide⟩

/-- The size in units. -/
def units (m : Magnitude) : Nat :=
  m.mantissa * Nat.pow 2 m.shift

def ofParts? (mantissa shift : Nat) : Option Magnitude :=
  if h : mantissa < Nat.pow 2 53 ∧ (shift = 0 ∨ Nat.pow 2 52 ≤ mantissa) ∧ shift ≤ 2045 then
    some ⟨mantissa, shift, h⟩
  else none

@[simp] theorem units_zero : zero.units = 0 := rfl

theorem ofParts?_parts (m : Magnitude) : ofParts? m.mantissa m.shift = some m :=
  dif_pos m.fits

/-- The size nearest to `num / den` units, a tie going to the even mantissa; none if that is
beyond the largest. -/
def ofUnits? (num den : Nat) : Option Magnitude :=
  let shift := (num / den).log2 - 52
  let mantissa := roundHalfEven num (den * Nat.pow 2 shift)
  if mantissa = Nat.pow 2 53 then ofParts? (Nat.pow 2 52) (shift + 1) else ofParts? mantissa shift

end Magnitude

end Binary64

/-- A floating point number of 64 bits. All not-a-numbers are the same. -/
inductive Binary64 where
  | finite (negative : Bool) (size : Binary64.Magnitude)
  | infinite (negative : Bool)
  | nan
deriving DecidableEq

namespace Binary64

def zero : Binary64 := .finite false .zero

/-- The signed count of units of a finite number. -/
def units? : Binary64 → Option Int
  | finite true m => some (-(m.units : Int))
  | finite false m => some m.units
  | _ => none

/-- The number nearest to `num / den` units with the given sign. -/
def ofUnits (negative : Bool) (num den : Nat) : Binary64 :=
  match Magnitude.ofUnits? num den with
  | some m => finite negative m
  | none => infinite negative

/-- The number nearest to `coefficient * 10 ^ exponent` with the given sign. Outside of the
exponents for which there are finite non-zero numbers the power of ten is not computed. -/
def ofScientific (negative : Bool) (coefficient : Nat) (exponent : Int) : Binary64 :=
  let top := (digitCount coefficient : Int) + exponent
  if coefficient = 0 ∨ top < -330 then finite negative .zero
  else if 400 < top then infinite negative
  else if 0 ≤ exponent then
    ofUnits negative (coefficient * Nat.pow 10 exponent.toNat * Nat.pow 2 unitExponent) 1
  else
    ofUnits negative (coefficient * Nat.pow 2 unitExponent) (Nat.pow 10 (-exponent).toNat)

/-- The number nearest to an integer. -/
def ofInt (n : Int) : Binary64 :=
  ofUnits (n < 0) (n.natAbs * Nat.pow 2 unitExponent) 1

def neg : Binary64 → Binary64
  | finite s m => finite (!s) m
  | infinite s => infinite (!s)
  | nan => nan

def ofSignedUnits (n : Int) (den : Nat) : Binary64 :=
  ofUnits (n < 0) n.natAbs den

/-- The rounded sum. -/
def add (x y : Binary64) : Binary64 :=
  match x, y with
  | nan, _ | _, nan => nan
  | infinite s, infinite t => if s = t then infinite s else nan
  | infinite s, _ => infinite s
  | _, infinite t => infinite t
  | finite s m, finite t n =>
    if m.units = 0 ∧ n.units = 0 then finite (s && t) .zero
    else ofSignedUnits ((if s then -(m.units : Int) else m.units) +
      (if t then -(n.units : Int) else n.units)) 1

/-- The rounded product. -/
def mul (x y : Binary64) : Binary64 :=
  match x, y with
  | nan, _ | _, nan => nan
  | infinite s, infinite t => infinite (s != t)
  | infinite s, finite t n => if n.units = 0 then nan else infinite (s != t)
  | finite s m, infinite t => if m.units = 0 then nan else infinite (s != t)
  | finite s m, finite t n => ofUnits (s != t) (m.units * n.units) (Nat.pow 2 unitExponent)

/-- The integer that a finite number denotes, if it denotes one. -/
def toInt? (x : Binary64) : Option Int :=
  match x.units? with
  | some u =>
    let one : Int := Nat.pow 2 unitExponent
    if u % one = 0 then some (u / one) else none
  | none => none

def isZero : Binary64 → Bool
  | finite _ m => m.units = 0
  | _ => false

def isNegative : Binary64 → Bool
  | finite s m => s && m.units ≠ 0
  | infinite s => s
  | nan => false

end Binary64

end DocTable
