import DocTable.Number.Decimal

/-!
Exact values of numbers of all kinds, for comparing a floating point number with an integer or a
decimal. A rational `odd * 2 ^ twos * 5 ^ fives` with `odd` prime to ten is in lowest form, so
that equality is equality of the three parts.
-/

namespace DocTable

/-- A rational number whose denominator has no prime factors but two and five. -/
structure Exact where
  odd : Int
  twos : Int
  fives : Int
deriving DecidableEq

namespace Exact

/-- Divides out a factor, at most `limit` times, and counts. -/
def strip (factor : Nat) : (limit n : Nat) → Nat × Nat
  | 0, n => (n, 0)
  | limit + 1, n =>
    if n % factor = 0 then
      let (rest, count) := strip factor limit (n / factor)
      (rest, count + 1)
    else (n, 0)

/-- The lowest form of `n * 2 ^ twos * 10 ^ tens`. -/
def ofParts (n : Int) (twos tens : Int) : Exact :=
  if n = 0 then ⟨0, 0, 0⟩
  else
    let (n', two) := strip 2 (n.natAbs.log2 + 1) n.natAbs
    let (n'', five) := strip 5 (n'.log2 + 1) n'
    ⟨n.sign * n'', twos + tens + two, tens + five⟩

def ofInt (n : Int) : Exact :=
  ofParts n 0 0

/-- Whether one number is less than the other: both are multiplied by the powers of two and five
that make them whole. -/
def lt (x y : Exact) : Bool :=
  let two := min x.twos y.twos
  let five := min x.fives y.fives
  let whole (z : Exact) : Int :=
    z.odd * Nat.pow 2 (z.twos - two).toNat * Nat.pow 5 (z.fives - five).toNat
  whole x < whole y

end Exact

/-- An exact number, an infinity, or something unequal to all numbers. -/
inductive Extended where
  | finite (x : Exact)
  | infinite (negative : Bool)
  | nan

namespace Extended

def ofBinary64 : Binary64 → Extended
  | .finite negative m =>
    .finite (.ofParts (if negative then -(m.units : Int) else m.units) (-Binary64.unitExponent) 0)
  | .infinite negative => .infinite negative
  | .nan => .nan

def ofDecimal : Decimal → Extended
  | .finite negative n exponent =>
    .finite (.ofParts (if negative then -(n : Int) else n) 0 exponent)
  | .infinite negative => .infinite negative
  | .nan .. => .nan

def same : Extended → Extended → Bool
  | finite x, finite y => x = y
  | infinite s, infinite t => s == t
  | _, _ => false

def lt : Extended → Extended → Bool
  | finite x, finite y => x.lt y
  | infinite s, infinite t => s && !t
  | infinite s, finite _ => s
  | finite _, infinite t => !t
  | _, _ => false

end Extended

end DocTable
