import DocTable.Value.Access

/-!
Converters: a pair of functions between the values that an application uses and the values that a
field takes. Some that are useful by themselves are given.
-/

namespace DocTable

/-- `store` is applied before a value is written, `load` after it was read. -/
structure Converter where
  store : Value → Outcome Value
  load : Value → Outcome Value

namespace Converter

def onText (f : List Nat → List Nat) : Value → Value
  | .text s => .text (.ofPoints (f s.points))
  | v => v

/-- Stores texts backwards. -/
def reversed : Converter where
  store v := .ok (onText List.reverse v)
  load v := .ok (onText List.reverse v)

def textOf : Value → Outcome Spelling
  | .text s => .ok s
  | _ => .error .wrongKind

/-- The code point of the comma. -/
def comma : Nat := ','.toNat

/-- Stores a list of texts as one text with commas between them. -/
def commaSeparated : Converter where
  store
    | .list items => do return .text (.intercalate comma (← items.mapM textOf))
    | v => .ok v
  load
    | .text s => .ok (.list ((s.split comma).map .text))
    | v => .ok v

/-- Stores a value as the only entry of a map. -/
def wrapped : Converter where
  store v := .ok (.map [(.text "v", v)])
  load v := v.atName "v"

/-- Stores nothing, and loads a text that says so. -/
def discarded : Converter where
  store _ := .ok .null
  load _ := .ok (.text "loaded")

def memberOf (v : Value) : Outcome Value :=
  if v.hashable then .ok v else .error .wrongKind

/-- Stores the items of a value as a set, and loads them as a sorted list. -/
def asSet : Converter where
  store v := do
    return .set false (Value.membersOf (← (← v.iterate).mapM memberOf))
  load v := do
    return .list (← Value.sortedBy Value.less (← v.iterate))

end Converter

end DocTable
