import DocTable.Failure

/-!
Base 64: bytes as characters of six bits each. Writing is exact; reading passes over characters
outside of the alphabet, and ends at the equality signs that complete a group of four.
-/

namespace DocTable.Base64

/-- Which two characters complete the alphabet. -/
inductive Alphabet where
  | plain
  | forUrls
deriving DecidableEq

/-- The character for six bits. -/
def digit (a : Alphabet) (n : Nat) : Char :=
  if n < 26 then Char.ofNat (65 + n)
  else if n < 52 then Char.ofNat (71 + n)
  else if n < 62 then Char.ofNat (n - 4)
  else match a, n with
    | .plain, 62 => '+'
    | .plain, _ => '/'
    | .forUrls, 62 => '-'
    | .forUrls, _ => '_'

/-- The six bits of a character. The alphabet for URLs takes the plain characters as well. -/
def value? (a : Alphabet) (c : Char) : Option Nat :=
  let n := c.toNat
  if 65 ≤ n ∧ n ≤ 90 then some (n - 65)
  else if 97 ≤ n ∧ n ≤ 122 then some (n - 71)
  else if 48 ≤ n ∧ n ≤ 57 then some (n + 4)
  else if c = '+' then some 62
  else if c = '/' then some 63
  else if a = .forUrls ∧ c = '-' then some 62
  else if a = .forUrls ∧ c = '_' then some 63
  else none

/-- The groups of six bits of bytes; the last group is filled up with zeros. -/
def sextets : List UInt8 → List Nat
  | [] => []
  | [a] => [a.toNat / 4, a.toNat % 4 * 16]
  | [a, b] => [a.toNat / 4, a.toNat % 4 * 16 + b.toNat / 16, b.toNat % 16 * 4]
  | a :: b :: c :: rest =>
    [a.toNat / 4, a.toNat % 4 * 16 + b.toNat / 16, b.toNat % 16 * 4 + c.toNat / 64,
      c.toNat % 64] ++ sextets rest

/-- The bytes of groups of six bits; bits that do not fill a byte are dropped. -/
def ofSextets : List Nat → List UInt8
  | a :: b :: c :: d :: rest =>
    [UInt8.ofNat (a * 4 + b / 16), UInt8.ofNat (b % 16 * 16 + c / 4),
      UInt8.ofNat (c % 4 * 64 + d)] ++ ofSextets rest
  | [a, b, c] => [UInt8.ofNat (a * 4 + b / 16), UInt8.ofNat (b % 16 * 16 + c / 4)]
  | [a, b] => [UInt8.ofNat (a * 4 + b / 16)]
  | _ => []

/-- The equality signs that complete the last group of four characters. -/
def padding (length : Nat) : List Char :=
  List.replicate ((4 - length % 4) % 4) '='

/-- Writes bytes without padding. -/
def encodeBare (a : Alphabet) (bytes : List UInt8) : List Char :=
  (sextets bytes).map (digit a)

/-- Writes bytes with padding. -/
def encode (a : Alphabet) (bytes : List UInt8) : List Char :=
  let cs := encodeBare a bytes
  cs ++ padding cs.length

/-- The groups of six bits of a text. `place` counts the characters in the group of four that is
being read, and `pads` the equality signs since the last of them. -/
def readSextets? (a : Alphabet) (place pads : Nat) : List Char → Option (List Nat)
  | [] => if place = 0 then some [] else none
  | c :: rest =>
    if c = '=' then
      if 2 ≤ place then
        if 4 ≤ place + (pads + 1) then some [] else readSextets? a place (pads + 1) rest
      else readSextets? a place pads rest
    else
      match value? a c with
      | some n => (readSextets? a ((place + 1) % 4) 0 rest).map (n :: ·)
      | none => readSextets? a place pads rest

/-- Reads bytes. Characters outside of ASCII are refused. -/
def decode (a : Alphabet) (cs : List Char) : Outcome (List UInt8) :=
  if cs.all (·.toNat < 128) then
    match readSextets? a 0 0 cs with
    | some ns => .ok (ofSextets ns)
    | none => .error .badBase64
  else .error .badText

end DocTable.Base64
