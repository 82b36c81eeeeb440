import DocTable.Json.Basic
import DocTable.Text.Units

/-!
Reading of trees. Blanks may stand around every part; numbers may be infinite or not a number.
-/

namespace DocTable.Json

/-- The blanks between the parts of a text. -/
def isSpace (c : Char) : Bool :=
  c = ' ' || c = '\t' || c = '\n' || c = '\r'

/-- The text after the blanks at its start. -/
def skip (cs : List Char) : List Char :=
  cs.dropWhile isSpace

/-- The unit that four hexadecimal digits denote. -/
def unit? (a b c d : Char) : Option Nat := do
  let a ← Text.hexValue? a
  let b ← Text.hexValue? b
  let c ← Text.hexValue? c
  let d ← Text.hexValue? d
  return ((a * 16 + b) * 16 + c) * 16 + d

/-- The character that one letter after a backslash stands for. -/
def letterEscape? : Char → Option Char
  | '"' => some '"'
  | '\\' => some '\\'
  | '/' => some '/'
  | 'b' => some '\x08'
  | 'f' => some '\x0c'
  | 'n' => some '\n'
  | 'r' => some '\r'
  | 't' => some '\t'
  | _ => none

/-- Reads the rest of a text after its opening quote, as numbers: code points, and the units of
those that are written by their units. Also gives what stands behind the closing quote. -/
def readUnits? : List Char → Option (List Nat × List Char)
  | [] => none
  | '"' :: rest => some ([], rest)
  | '\\' :: 'u' :: a :: b :: c :: d :: rest => do
    let n ← unit? a b c d
    let (ns, rest) ← readUnits? rest
    return (n :: ns, rest)
  | '\\' :: e :: rest => do
    let c ← letterEscape? e
    let (ns, rest) ← readUnits? rest
    return (c.toNat :: ns, rest)
  | c :: rest =>
    if c = '\\' ∨ c.toNat < 32 then none
    else do
      let (ns, rest) ← readUnits? rest
      return (c.toNat :: ns, rest)

/-- Reads the rest of a text after its opening quote. -/
def readText? (cs : List Char) : Option (Spelling × List Char) :=
  (readUnits? cs).map fun (ns, rest) => (.ofPoints (Text.joinUnits ns), rest)

/-- The rest of a text after a word at its start. -/
def after? (word : List Char) (cs : List Char) : Option (List Char) :=
  if word.isPrefixOf cs then some (cs.drop word.length) else none

/-- Splits the digits off the start of a text. -/
def splitDigits (cs : List Char) : List Char × List Char :=
  (cs.takeWhile Char.isDigit, cs.dropWhile Char.isDigit)

/-- Reads the digits before the point: a single zero, or digits of which the first is not zero. -/
def readWhole? : List Char → Option (List Char × List Char)
  | '0' :: rest => some (['0'], rest)
  | cs =>
    match splitDigits cs with
    | ([], _) => none
    | parts => some parts

/-- Reads a point and at least one digit, if they are there. -/
def readFraction (cs : List Char) : List Char × List Char :=
  match cs with
  | '.' :: rest =>
    match splitDigits rest with
    | ([], _) => ([], cs)
    | parts => parts
  | _ => ([], cs)

/-- Reads an exponent, if there is one. -/
def readExponent (cs : List Char) : Option Int × List Char :=
  match cs with
  | e :: rest =>
    if e = 'e' ∨ e = 'E' then
      let (negative, digits) := Decimal.splitSign rest
      match splitDigits digits with
      | ([], _) => (none, cs)
      | (ds, rest) =>
        let n : Int := Nat.ofDigitChars 10 ds 0
        (some (if negative then -n else n), rest)
    else (none, cs)
  | [] => (none, cs)

/-- Reads a number without its sign. With neither point nor exponent it is an integer. -/
def readNumber (negative : Bool) (cs : List Char) : Outcome (Json × List Char) :=
  match readWhole? cs with
  | none => .error .badJson
  | some (whole, rest) =>
    let (fraction, rest) := readFraction rest
    let (exponent, rest) := readExponent rest
    let coefficient := Nat.ofDigitChars 10 (whole ++ fraction) 0
    if fraction = [] ∧ exponent = none then
      if Text.digitLimit < whole.length then .error .badText
      else .ok (int (if negative then -(coefficient : Int) else coefficient), rest)
    else
      .ok (float (.ofScientific negative coefficient (exponent.getD 0 - fraction.length)), rest)

/-- The trees that are written as words. -/
def words : List (String × Json) :=
  [("null", null), ("true", bool true), ("false", bool false), ("NaN", float .nan),
    ("Infinity", float (.infinite false)), ("-Infinity", float (.infinite true))]

/-- Reads a tree that is written as a word. -/
def readWord? (cs : List Char) : Option (Json × List Char) :=
  words.findSome? fun (word, j) => (after? word.toList cs).map fun rest => (j, rest)

mutual

/-- Reads a tree at the start of a text, with at most `fuel` parts nested or in sequence. The limit
is for the arrays and objects that stand in one another. -/
def readValue : (fuel : Nat) → (limit : Option Nat) → List Char → Outcome (Json × List Char)
  | 0, _, _ => .error .badJson
  | fuel + 1, limit, cs =>
    match cs with
    | '"' :: rest =>
      match readText? rest with
      | some (s, rest) => .ok (text s, rest)
      | none => .error .badJson
    | '[' :: rest => do
      let limit ← deeper limit
      match skip rest with
      | ']' :: rest => .ok (array [], rest)
      | cs => do
        let (items, rest) ← readItems fuel limit cs
        return (array items, rest)
    | '\x7b' :: rest => do
      let limit ← deeper limit
      match skip rest with
      | '\x7d' :: rest => .ok (object [], rest)
      | cs => do
        let (members, rest) ← readMembers fuel limit cs
        return (object members, rest)
    | cs =>
      match readWord? cs with
      | some r => .ok r
      | none =>
        match cs with
        | '-' :: rest => readNumber true rest
        | cs => readNumber false cs

/-- Reads one item or more, up to the closing bracket. -/
def readItems : (fuel : Nat) → (limit : Option Nat) → List Char →
    Outcome (List Json × List Char)
  | 0, _, _ => .error .badJson
  | fuel + 1, limit, cs => do
    let (j, rest) ← readValue fuel limit cs
    match skip rest with
    | ']' :: rest => .ok ([j], rest)
    | ',' :: rest => do
      let (items, rest) ← readItems fuel limit (skip rest)
      return (j :: items, rest)
    | _ => .error .badJson

/-- Reads one member or more, up to the closing brace. -/
def readMembers : (fuel : Nat) → (limit : Option Nat) → List Char →
    Outcome (List (Spelling × Json) × List Char)
  | 0, _, _ => .error .badJson
  | fuel + 1, limit, cs => do
    match cs with
    | '"' :: rest =>
      match readText? rest with
      | none => .error .badJson
      | some (name, rest) =>
        match skip rest with
        | ':' :: rest => do
          let (j, rest) ← readValue fuel limit (skip rest)
          match skip rest with
          | '\x7d' :: rest => .ok ([(name, j)], rest)
          | ',' :: rest => do
            let (members, rest) ← readMembers fuel limit (skip rest)
            return ((name, j) :: members, rest)
          | _ => .error .badJson
        | _ => .error .badJson
    | _ => .error .badJson

end

/-- Reads a text as one tree. -/
def ofChars (cs : List Char) (limit : Option Nat := none) : Outcome Json := do
  let (j, rest) ← readValue (2 * cs.length + 2) limit (skip cs)
  if skip rest = [] then .ok j else .error .badJson

def parse (s : String) (limit : Option Nat := none) : Outcome Json :=
  ofChars s.toList limit

end DocTable.Json
