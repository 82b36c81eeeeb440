import DocTable.Stored.Basic

/-!
The attribute value of an application value. First the value is brought into a form whose parts
are all of kinds that the store knows; then the kind of each part decides how it is held.
-/

namespace DocTable

namespace Value

/-- The decimal number that a floating point number shows: `0.1` is one tenth. -/
def shownDecimal (x : Binary64) : Decimal :=
  (Decimal.ofText? x.toText).getD (.nan false false 0)

mutual

/-- A value with decimals for floating point numbers, lists for tuples, changeable sets for frozen
ones and texts for the keys of maps. A set cannot have members that turn into lists or sets, nor a
map a key with too many digits. -/
def toStorable : Value → Except Unstorable Value
  | float x => .ok (decimal (shownDecimal x))
  | map entries => do return map (← entriesToStorable [] entries)
  | list items | tuple items => do return list (← itemsToStorable items)
  | set _ members => do return set false (← membersToStorable [] members)
  | v => .ok v

def itemsToStorable : List Value → Except Unstorable (List Value)
  | [] => .ok []
  | v :: rest => do return (← toStorable v) :: (← itemsToStorable rest)

def entriesToStorable (done : Entries) : List (Value × Value) → Except Unstorable Entries
  | [] => .ok done
  | (k, v) :: rest =>
    if k.hasText then do
      let v ← toStorable v
      entriesToStorable (done.put (text k.spelling) v) rest
    else .error .tooLong

def membersToStorable (done : List Value) : List Value → Except Unstorable (List Value)
  | [] => .ok done
  | v :: rest => do
    let v ← toStorable v
    if v.hashable then membersToStorable (insertMember done v) rest
    else .error (.notHashable v.kind)

end

/-- The number that a member of a set of numbers is. A truth value counts. -/
def exactNumber? : Value → Option Decimal
  | bool b => some (.ofInt (if b then 1 else 0))
  | int n => some (.ofInt n)
  | decimal d => some d
  | _ => none

def text? : Value → Option Spelling
  | text s => some s
  | _ => none

def bytes? : Value → Option (List UInt8)
  | bytes _ content => some content
  | _ => none

end Value

namespace Attr

/-- The text under which the store holds a number. Neither infinity nor the plain not-a-number is
held. -/
def numberText (d : Decimal) : Outcome String := do
  let shown := (← admitted d).toText
  if shown = "Infinity" ∨ shown = "NaN" then .error (.unstorable .notFinite) else .ok shown

/-- A refusal of a value for its kind, which tells the value if it can be written. -/
def unknownKind (v : Value) : Failure :=
  .unstorable (if v.hasText then .unknownKind v.kind v.plain else .tooLong)

/-- The set of the given members, which are all numbers, all texts or all byte strings. -/
def ofMembers (frozen : Bool) (members : List Value) : Outcome Attr :=
  match members.mapM Value.exactNumber? with
  | some ds => do return numbers ((← ds.mapM numberText).map .plain)
  | none =>
    match members.mapM Value.text? with
    | some ss => .ok (texts ss)
    | none =>
      match members.mapM Value.bytes? with
      | some bs => .ok (byteSets bs)
      | none => .error (unknownKind (.set frozen members))

mutual

/-- The attribute value of a storable value, by the kinds of its parts. -/
def ofStorable : Value → Outcome Attr
  | .null => .ok null
  | .bool b => .ok (bool b)
  | .int n => do return number (← numberText (.ofInt n))
  | .decimal d => do return number (← numberText d)
  | .text s => .ok (text s)
  | .bytes changeable content => .ok (bytes changeable content)
  | .set frozen members => ofMembers frozen members
  | .map entries => do return map (← ofEntries entries)
  | .list items | .tuple items => do return list (← ofItems items)
  | v => .error (unknownKind v)

def ofItems : List Value → Outcome (List Attr)
  | [] => .ok []
  | v :: rest => do return (← ofStorable v) :: (← ofItems rest)

def ofEntries : List (Value × Value) → Outcome (List (Spelling × Attr))
  | [] => .ok []
  | (k, v) :: rest => do
    let a ← ofStorable v
    return (k.spelling, a) :: (← ofEntries rest)

end

/-- The attribute value of an application value. -/
def ofValue (v : Value) : Outcome Attr :=
  match v.toStorable with
  | .ok v => ofStorable v
  | .error why => .error (.unstorable why)

end Attr

end DocTable
