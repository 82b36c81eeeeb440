import DocTable.Value.Access

/-!
Trees of the JSON format, and their relation to values: which values are trees, and which value a
tree stands for.
-/

namespace DocTable

/-- A tree of the JSON format. Whole numbers are told from others by how they are written. -/
inductive Json where
  | null
  | bool (b : Bool)
  | int (n : Int)
  | float (x : Binary64)
  | text (s : Spelling)
  | array (items : List Json)
  | object (members : List (Spelling × Json))

instance : Inhabited Json := ⟨.null⟩

namespace Json

mutual

/-- The value that a tree stands for. Of members with one name the last counts. -/
def toValue : Json → Value
  | null => .null
  | bool b => .bool b
  | int n => .int n
  | float x => .float x
  | text s => .text s
  | array items => .list (toValues items)
  | object members => .map (toEntries [] members)

def toValues : List Json → List Value
  | [] => []
  | j :: rest => toValue j :: toValues rest

def toEntries (done : Entries) : List (Spelling × Json) → Entries
  | [] => done
  | (name, j) :: rest => toEntries (done.put (.text name) (toValue j)) rest

end

/-- An integer, unless it has too many digits to be written. -/
def ofInt (n : Int) : Outcome Json :=
  if Text.digitLimit < digitCount n.natAbs then .error .badText else .ok (int n)

/-- How a floating point number is written. -/
def floatText : Binary64 → String
  | .nan => "NaN"
  | .infinite false => "Infinity"
  | .infinite true => "-Infinity"
  | x => x.toText

/-- The name that stands for a key of a map. -/
def nameOf : Value → Outcome Spelling
  | .text s => .ok s
  | .null => .ok "null"
  | .bool true => .ok "true"
  | .bool false => .ok "false"
  | .int n => do
    let _ ← ofInt n
    return integerText n
  | .float x => .ok (floatText x)
  | _ => .error .wrongKind

/-- The members of an object, in the order of the keys that they are named for. -/
def sortedMembers (entries : List (Value × Outcome Json)) :
    Outcome (List (Spelling × Json)) := do
  let sorted ← Value.sortedBy (fun a b => a.1.less b.1) entries
  sorted.mapM fun (k, j) => do
    let name ← nameOf k
    return (name, ← j)

mutual

/-- The tree of a value. -/
def ofValue : Value → Outcome Json
  | .null => .ok null
  | .bool b => .ok (bool b)
  | .int n => ofInt n
  | .float x => .ok (float x)
  | .text s => .ok (text s)
  | .list items | .tuple items => do return array (← ofItems items)
  | .map entries => do return object (← sortedMembers (ofEntries entries))
  | _ => .error .wrongKind

def ofItems : List Value → Outcome (List Json)
  | [] => .ok []
  | v :: rest => do return (← ofValue v) :: (← ofItems rest)

def ofEntries : List (Value × Value) → List (Value × Outcome Json)
  | [] => []
  | (k, v) :: rest => (k, ofValue v) :: ofEntries rest

end

/-! ## Nesting -/

mutual

/-- How many arrays and objects stand in one another at most. -/
def depth : Json → Nat
  | array items => itemsDepth items + 1
  | object members => membersDepth members + 1
  | _ => 0

def itemsDepth : List Json → Nat
  | [] => 0
  | j :: rest => max (depth j) (itemsDepth rest)

def membersDepth : List (Spelling × Json) → Nat
  | [] => 0
  | (_, j) :: rest => max (depth j) (membersDepth rest)

end

mutual

/-- Whether all texts and names are plain. -/
def isPlain : Json → Bool
  | text s => s.isPlain
  | array items => itemsPlain items
  | object members => membersPlain members
  | _ => true

def itemsPlain : List Json → Bool
  | [] => true
  | j :: rest => isPlain j && itemsPlain rest

def membersPlain : List (Spelling × Json) → Bool
  | [] => true
  | (name, j) :: rest => name.isPlain && isPlain j && membersPlain rest

end

end Json

/-- How many parts may still stand in one another, if that is limited. What is one level further
in has one less. -/
def deeper : Option Nat → Outcome (Option Nat)
  | none => .ok none
  | some 0 => .error .endless
  | some (n + 1) => .ok (some n)

end DocTable
