import DocTable.Number.Rounding
import DocTable.Text.Digit
import DocTable.Number.Binary64

/-!
Decimal numbers that keep their trailing zeros, their text, and the contexts of limited precision
in which a number must be representable as it is.
-/

namespace DocTable

/-- A decimal number `± coefficient * 10 ^ exponent`, an infinity, or a not-a-number, which may
carry a payload. -/
inductive Decimal where
  | finite (negative : Bool) (coefficient : Nat) (exponent : Int)
  | infinite (negative : Bool)
  | nan (negative signaling : Bool) (payload : Nat)
deriving DecidableEq

namespace Decimal

def ofInt (n : Int) : Decimal :=
  .finite (n < 0) n.natAbs 0

/-- The exponent of ten of the leading digit, the coefficient being read as if it had no leading
zeros. -/
def adjusted (coefficient : Nat) (exponent : Int) : Int :=
  exponent + digitCount coefficient - 1

/-! ## Text -/

def exponentText (n : Int) : List Char :=
  'E' :: (if n < 0 then '-' else '+') :: decimalDigits n.natAbs

/-- Digits with an exponent: positional if there is no positive exponent and not more than five
zeros after the point, else one digit before the point and the exponent of that digit. -/
def magnitudeText (coefficient : Nat) (exponent : Int) : List Char :=
  let digits := decimalDigits coefficient
  let place := exponent + digits.length
  if exponent = 0 then digits
  else if exponent < 0 ∧ -6 < place then
    if place ≤ 0 then '0' :: '.' :: (List.replicate (-place).toNat '0' ++ digits)
    else digits.take place.toNat ++ '.' :: digits.drop place.toNat
  else
    (match digits with
      | d :: e :: rest => d :: '.' :: e :: rest
      | short => short) ++
    exponentText (place - 1)

/-- The text of a decimal number, which shows coefficient and exponent exactly. -/
def toText (d : Decimal) : String :=
  let signed (negative : Bool) (body : List Char) :=
    String.ofList (if negative then '-' :: body else body)
  match d with
  | finite negative coefficient exponent => signed negative (magnitudeText coefficient exponent)
  | infinite negative => signed negative "Infinity".toList
  | nan negative signaling payload =>
    signed negative ((if signaling then ['s'] else []) ++ "NaN".toList ++
      if payload = 0 then [] else decimalDigits payload)

/-! ## Reading -/

def lowered (cs : List Char) : List Char :=
  cs.map Char.toLower

/-- The sign at the head of a text, and the rest. -/
def splitSign : List Char → Bool × List Char
  | '-' :: rest => (true, rest)
  | '+' :: rest => (false, rest)
  | cs => (false, cs)

/-- Reads an exponent, nothing standing for zero. -/
def readExponent? : List Char → Option Int
  | [] => some 0
  | e :: rest =>
    if e = 'e' ∨ e = 'E' then
      let (negative, digits) := splitSign rest
      if digits ≠ [] ∧ digits.all Char.isDigit then
        let n : Int := Nat.ofDigitChars 10 digits 0
        some (if negative then -n else n)
      else none
    else none

/-- Reads an unsigned number in ASCII digits. -/
def readMagnitude? (negative : Bool) (cs : List Char) : Option Decimal :=
  let whole := cs.takeWhile Char.isDigit
  let (fraction, rest) := match cs.dropWhile Char.isDigit with
    | '.' :: rest => (rest.takeWhile Char.isDigit, rest.dropWhile Char.isDigit)
    | rest => ([], rest)
  if whole = [] ∧ fraction = [] then none
  else
    (readExponent? rest).map fun exponent =>
      finite negative (Nat.ofDigitChars 10 (whole ++ fraction) 0) (exponent - fraction.length)

def readPayload? (digits : List Char) : Option Nat :=
  if digits.all Char.isDigit then some (Nat.ofDigitChars 10 digits 0) else none

/-- Reads the name of a special value in lower case. -/
def readSpecial? (negative : Bool) (cs : List Char) : Option Decimal :=
  if cs = "inf".toList ∨ cs = "infinity".toList then some (infinite negative)
  else match cs with
    | 'n' :: 'a' :: 'n' :: rest => (readPayload? rest).map (nan negative false)
    | 's' :: 'n' :: 'a' :: 'n' :: rest => (readPayload? rest).map (nan negative true)
    | _ => none

def asciiDigit (c : Char) : Char :=
  match Text.digitValue? c with
  | some n => Char.ofNat (48 + n)
  | none => c

/-- Reads a decimal number: a sign, digits of any script with a point and an exponent, or the
name of a special value in any case. No blanks. -/
def ofText? (s : String) : Option Decimal :=
  let (negative, body) := splitSign (s.toList.map asciiDigit)
  match readMagnitude? negative body with
  | some d => some d
  | none => readSpecial? negative (lowered body)

/-- The exact value of a floating point number. Whole numbers get the exponent zero, others the
least number of digits after the point. -/
def ofBinary64 : Binary64 → Decimal
  | .nan => nan false false 0
  | .infinite negative => infinite negative
  | .finite negative m =>
    let common := m.units.gcd (Nat.pow 2 Binary64.unitExponent)
    let places := (Nat.pow 2 Binary64.unitExponent / common).log2
    finite negative (m.units / common * Nat.pow 5 places) (-(places : Int))

/-! ## Values -/

/-- The integer that a finite number denotes, if it denotes one. Whether it does is seen from
the digits alone. -/
def toInt? : Decimal → Option Int
  | finite negative coefficient exponent =>
    let signed (n : Nat) : Int := if negative then -(n : Int) else n
    if coefficient = 0 then some 0
    else if 0 ≤ exponent then some (signed (coefficient * Nat.pow 10 exponent.toNat))
    else if (digitCount coefficient : Int) + exponent ≤ 0 then none
    else
      let unit := Nat.pow 10 (-exponent).toNat
      if coefficient % unit = 0 then some (signed (coefficient / unit)) else none
  | _ => none

/-- The integer next to a finite number on the side of zero. -/
def truncate? : Decimal → Option Int
  | finite negative coefficient exponent =>
    let size : Nat :=
      if 0 ≤ exponent then coefficient * Nat.pow 10 exponent.toNat
      else if (digitCount coefficient : Int) + exponent ≤ 0 then 0
      else coefficient / Nat.pow 10 (-exponent).toNat
    some (if negative then -(size : Int) else size)
  | _ => none

/-- The nearest floating point number. -/
def toBinary64 : Decimal → Binary64
  | finite negative coefficient exponent => .ofScientific negative coefficient exponent
  | infinite negative => .infinite negative
  | nan .. => .nan

def isZero : Decimal → Bool
  | finite _ 0 _ => true
  | _ => false

def isNegative : Decimal → Bool
  | finite negative coefficient _ => negative && coefficient ≠ 0
  | infinite negative => negative
  | nan .. => false

/-! ## Contexts -/

/-- What happens to a number that a context cannot hold as it is. -/
inductive Signal where
  | overflow
  | underflow
  | inexact
  | rounded
  | clamped
deriving DecidableEq

/-- Limits on the digits of a coefficient and on the exponent of the leading digit. -/
structure Context where
  precision : Nat
  least : Int
  greatest : Int

namespace Context

/-- The least exponent of a coefficient: that of the last digit of the smallest numbers. -/
def floor (c : Context) : Int :=
  c.least - c.precision + 1

def roundingSignals (lost : Bool) (overflows tiny : Bool) : Signal :=
  if overflows then .overflow
  else if lost then (if tiny then .underflow else .inexact)
  else .rounded

/-- Takes a number into the context. It stays as it is, or the first in rank of the signals
raised by rounding it is given. More digits than there are need not be dropped: one more than all
of them leaves nothing. A payload with too many digits is a syntax error, which gives a plain
not-a-number. -/
def restrict (c : Context) (d : Decimal) : Except Signal Decimal :=
  match d with
  | infinite _ => .ok d
  | nan _ _ payload =>
    if payload ≠ 0 ∧ c.precision < digitCount payload then .ok (nan false false 0) else .ok d
  | finite _ coefficient exponent =>
    if coefficient = 0 then
      if exponent < c.floor ∨ c.greatest < exponent then .error .clamped else .ok d
    else
      let leading := adjusted coefficient exponent
      if c.greatest < leading then .error .overflow
      else
        let tiny := leading < c.least
        let excess := digitCount coefficient - c.precision
        let drop :=
          if tiny then min (c.floor - exponent).toNat (digitCount coefficient + 1) else excess
        if drop = 0 then .ok d
        else
          let lost := coefficient % Nat.pow 10 drop ≠ 0
          let carried := digitCount (roundHalfEven coefficient (Nat.pow 10 drop)) > c.precision
          .error (roundingSignals lost (carried ∧ c.greatest < leading + 1) tiny)

/-- A number that a context takes is given back unchanged, too long payloads apart. -/
theorem restrict_finite {c : Context} {s : Bool} {n : Nat} {e : Int} {d : Decimal}
    (h : c.restrict (.finite s n e) = .ok d) : d = .finite s n e := by
  unfold restrict at h
  simp only at h
  split at h
  · split at h <;> simp_all
  · split at h
    · simp at h
    · by_cases hd : (if adjusted n e < c.least then min (c.floor - e).toNat (digitCount n + 1)
          else digitCount n - c.precision) = 0
      · simp only [hd, if_true, Except.ok.injEq] at h
        exact h.symm
      · simp [hd] at h

end Context

end Decimal

end DocTable
