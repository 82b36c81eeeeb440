import DocTable.Stored.Basic

/-!
The application value of an attribute value that came from the store. What comes may be malformed,
so it is an arbitrary value here. The key of its first entry, in any case, says how the rest is
read; numbers become decimals first and integers or floating point numbers at the end.
-/

namespace DocTable

namespace Value

/-- A digit of a number given by its parts. -/
def digitOf? (v : Value) : Option Nat :=
  match v with
  | bool b => some (if b then 1 else 0)
  | int n => if 0 ≤ n ∧ n ≤ 9 then some n.toNat else none
  | _ => none

/-- A number given by sign, digits and exponent; a letter for the exponent marks the special
numbers. -/
def ofParts? (sign digits exponent : Value) : Option Decimal := do
  let negative ← match ← sign.digitOf? with
    | 0 => some false
    | 1 => some true
    | _ => none
  let ds := Text.ofDigits (← (← digits.array?).mapM digitOf?)
  match exponent with
  | text (.plain "F") => some (.infinite negative)
  | text (.plain "n") => some (.nan negative false ds)
  | text (.plain "N") => some (.nan negative true ds)
  | int e => some (.finite negative ds e)
  | bool b => some (.finite negative ds (if b then 1 else 0))
  | _ => none

/-- The number that a payload stands for. A text that is no number is a not-a-number. -/
def toDecimal (v : Value) : Outcome Decimal :=
  match v with
  | text s => admitted ((Decimal.ofText? s.mended).getD (.nan false false 0))
  | int n => admitted (.ofInt n)
  | bool b => admitted (.ofInt (if b then 1 else 0))
  | float x => admitted (.ofBinary64 x)
  | decimal d => admitted d
  | list items | tuple items =>
    match items with
    | [sign, digits, exponent] =>
      match ofParts? sign digits exponent with
      | some d => admitted d
      | none => .error .badText
    | _ => .error .badText
  | _ => .error .wrongKind

/-- The byte string that a payload holds. -/
def toBytes : Value → Outcome Value
  | bytes _ content => .ok (bytes false content)
  | _ => .error .wrongKind

/-- A member for a set that is read, which cannot be changeable. -/
def toMember (v : Value) : Outcome Value :=
  if v.hashable then .ok v else .error .wrongKind

/-- What reading gives for something other than a map: nothing has no kind, and anything else has
no keys. -/
def notStored (v : Value) : Failure :=
  if v.truthy then .noAttribute else .wrongKind

mutual

/-- Reads an attribute value; numbers become decimals. -/
def ofStored : Value → Outcome Value
  | map ((text key, payload) :: _) =>
    match Tag.ofCode? (String.ofList (key.mended.toList.map Char.toUpper)) with
    | some .text | some .bool => .ok payload
    | some .null => .ok null
    | some .number => do return decimal (← payload.toDecimal)
    | some .bytes => payload.toBytes
    | some .texts => do
      return set false (membersOf (← (← payload.iterate).mapM toMember))
    | some .numbers => do
      let ds ← (← payload.iterate).mapM fun v => do toMember (decimal (← v.toDecimal))
      return set false (membersOf ds)
    | some .byteSets => do
      let bs ← (← payload.iterate).mapM fun v => do
        let b ← v.toBytes
        let _ ← v.toMember
        return b
      return set false (membersOf bs)
    | some .list => listOfStored payload
    | some .map => mapOfStored payload
    | none => .error .wrongKind
  | map _ => .error .wrongKind
  | v => .error v.notStored

/-- Reads what yields attribute values. -/
def listOfStored : Value → Outcome Value
  | list items | tuple items | set _ items => do return list (← itemsOfStored items)
  | v => do
    match ← v.iterate with
    | [] => .ok (list [])
    | item :: _ => .error item.notStored

def itemsOfStored : List Value → Outcome (List Value)
  | [] => .ok []
  | v :: rest => do return (← ofStored v) :: (← itemsOfStored rest)

def mapOfStored : Value → Outcome Value
  | map entries => do return map (← entriesOfStored entries)
  | _ => .error .noAttribute

def entriesOfStored : List (Value × Value) → Outcome (List (Value × Value))
  | [] => .ok []
  | (k, v) :: rest => do
    let v ← ofStored v
    return (k, v) :: (← entriesOfStored rest)

end

/-- The plain number for a decimal: an integer if it denotes one, else the nearest floating point
number. -/
def ofDecimal : Decimal → Outcome Value
  | .nan _ true _ => .error .signalingComparison
  | .infinite _ => .error .tooLarge
  | d => .ok (match d.toInt? with
    | some n => int n
    | none => float d.toBinary64)

mutual

/-- A value with plain numbers for the decimals in it, outside of tuples and frozen sets. -/
def simplified : Value → Outcome Value
  | decimal d => ofDecimal d
  | map entries => do return map (← simplifiedEntries entries)
  | list items => do return list (← simplifiedItems items)
  | set false members => do return set false (membersOf (← simplifiedItems members))
  | v => .ok v

def simplifiedItems : List Value → Outcome (List Value)
  | [] => .ok []
  | v :: rest => do return (← simplified v) :: (← simplifiedItems rest)

def simplifiedEntries : List (Value × Value) → Outcome (List (Value × Value))
  | [] => .ok []
  | (k, v) :: rest => do
    let v ← simplified v
    return (k, v) :: (← simplifiedEntries rest)

end

/-- The application value of an attribute value. -/
def ofAttribute (v : Value) : Outcome Value := do
  (← ofStored (.map (← v.asMap))).simplified

end Value

end DocTable
