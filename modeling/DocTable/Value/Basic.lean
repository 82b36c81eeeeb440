import DocTable.Number.Exact
import DocTable.Number.Shortest
import DocTable.Text.Spelling
import DocTable.OrderedMap

/-!
The values that an application stores and compares, with their equality, truth and text.
Requests and responses of the store are values too, so that malformed ones can be spoken of.
-/

namespace DocTable

/-- A value. Maps and sets keep the order in which they were built and hold no two equal keys or
members; a record is an object with named fields. -/
inductive Value where
  | null
  | bool (b : Bool)
  | int (n : Int)
  | float (x : Binary64)
  | decimal (d : Decimal)
  | text (s : Spelling)
  | bytes (changeable : Bool) (content : List UInt8)
  | list (items : List Value)
  | tuple (items : List Value)
  | set (frozen : Bool) (members : List Value)
  | map (entries : List (Value × Value))
  /-- The value that stands for any other when requests are checked. -/
  | wildcard
  | record (fields : List (String × Value))
  /-- A value of a kind that is only named and shown, such as a date. -/
  | other (kind shown : String)

instance : Inhabited Value := ⟨.null⟩

/-- The entries of a map of values. -/
abbrev Entries := OrderedMap Value Value

namespace Value

/-- The name of a value's kind, as messages show it. -/
def kind : Value → String
  | null => "NoneType"
  | bool _ => "bool"
  | int _ => "int"
  | float _ => "float"
  | decimal _ => "Decimal"
  | text _ => "str"
  | bytes false _ => "bytes"
  | bytes true _ => "bytearray"
  | list _ => "list"
  | tuple _ => "tuple"
  | set false _ => "set"
  | set true _ => "frozenset"
  | map _ => "dict"
  | wildcard => "_Wildcard"
  | record _ => "Record"
  | other kind _ => kind

/-- The exact value of a number; a truth value counts as zero or one. -/
def number? : Value → Option Extended
  | bool b => some (.finite (.ofInt (if b then 1 else 0)))
  | int n => some (.finite (.ofInt n))
  | float x => some (.ofBinary64 x)
  | decimal d => some (.ofDecimal d)
  | _ => none

/-- Equality of two values neither of which has parts. Numbers are compared by their exact values,
so that `1`, `1.0` and `true` are equal; a not-a-number is unequal to everything. -/
def sameAtom (a b : Value) : Bool :=
  match a, b with
  | null, null => true
  | bool a, bool b => a == b
  | bool a, int b => (if a then 1 else 0) == b
  | int a, bool b => a == if b then 1 else 0
  | int a, int b => a == b
  | text a, text b => a == b
  | bytes _ a, bytes _ b => a == b
  | wildcard, wildcard => true
  | other kind a, other kind' b => kind == kind' && a == b
  | a, b =>
    match a.number?, b.number? with
    | some x, some y => x.same y
    | _, _ => false

mutual

/-- Equality of values. A list is no tuple, but the order of a map's entries or of a set's members
does not count. -/
def same : Value → Value → Bool
  | list a, list b => sameItems a b
  | tuple a, tuple b => sameItems a b
  | set _ a, set _ b => a.length == b.length && allIn a b
  | map a, map b => a.length == b.length && allEntriesIn a b
  | record a, record b => sameFields a b
  | a, b => sameAtom a b

/-- Equality of lists, item by item. -/
def sameItems : List Value → List Value → Bool
  | [], [] => true
  | a :: as, b :: bs => same a b && sameItems as bs
  | _, _ => false

/-- Whether every one of the first values is equal to one of the second. -/
def allIn : List Value → List Value → Bool
  | [], _ => true
  | a :: as, bs => bs.any (fun b => same a b) && allIn as bs

/-- Whether every entry of the first map is in the second, under an equal key with an equal
value. -/
def allEntriesIn : List (Value × Value) → List (Value × Value) → Bool
  | [], _ => true
  | (k, v) :: rest, bs =>
    (match bs.find? (fun b => same k b.1) with
      | some b => same v b.2
      | none => false) && allEntriesIn rest bs

/-- Equality of the fields of two records. -/
def sameFields : List (String × Value) → List (String × Value) → Bool
  | [], [] => true
  | (name, a) :: as, (name', b) :: bs => name == name' && same a b && sameFields as bs
  | _, _ => false

end

instance : BEq Value := ⟨same⟩

/-- Whether a value counts as true where a condition is asked for. -/
def truthy : Value → Bool
  | null => false
  | bool b => b
  | int n => n ≠ 0
  | float x => !x.isZero
  | decimal d => !d.isZero
  | text s => s ≠ ""
  | bytes _ content => content ≠ []
  | list items | tuple items | set _ items => !items.isEmpty
  | map entries => !entries.isEmpty
  | wildcard | record _ | other .. => true

mutual

/-- Whether a value can be a member of a set or a key of a map. -/
def hashable : Value → Bool
  | bytes changeable _ => !changeable
  | list _ | map _ | record _ => false
  | set frozen _ => frozen
  | tuple items => allHashable items
  | decimal (.nan _ signaling _) => !signaling
  | _ => true

def allHashable : List Value → Bool
  | [] => true
  | a :: as => hashable a && allHashable as

end

/-- Adds a member to a set, unless an equal one is in it. -/
def insertMember (members : List Value) (v : Value) : List Value :=
  if members.any (·.same v) then members else members ++ [v]

/-- The members of a set built from values in order. -/
def membersOf (vs : List Value) : List Value :=
  vs.foldl insertMember []

def isText : Value → Bool
  | text _ => true
  | _ => false

def isMap : Value → Bool
  | map _ => true
  | _ => false

/-- Lists and tuples. -/
def isArray : Value → Bool
  | list _ | tuple _ => true
  | _ => false

/-- The items of a list or tuple. -/
def array? : Value → Option (List Value)
  | list items | tuple items => some items
  | _ => none

def boolText (b : Bool) : String :=
  if b then "True" else "False"

def commaSeparated (parts : List String) : String :=
  ", ".intercalate parts

mutual

/-- A value as it is written in messages, texts between quotes. -/
def shown : Value → String
  | null => "None"
  | bool b => boolText b
  | int n => integerText n
  | float x => x.toText
  | decimal d => "Decimal('" ++ d.toText ++ "')"
  | text s => s.quoted
  | bytes false content => Text.quotedBytes content
  | bytes true content => Text.quotedBuffer content
  | list items => "[" ++ commaSeparated (shownItems items) ++ "]"
  | tuple [item] => "(" ++ shown item ++ ",)"
  | tuple items => "(" ++ commaSeparated (shownItems items) ++ ")"
  | set false [] => "set()"
  | set true [] => "frozenset()"
  | set false members => "\x7b" ++ commaSeparated (shownItems members) ++ "\x7d"
  | set true members => "frozenset(\x7b" ++ commaSeparated (shownItems members) ++ "\x7d)"
  | map entries => "\x7b" ++ commaSeparated (shownEntries entries) ++ "\x7d"
  | wildcard => "ANY"
  | record fields => "Record(" ++ commaSeparated (shownFields fields) ++ ")"
  | other _ shown => shown

def shownItems : List Value → List String
  | [] => []
  | a :: as => shown a :: shownItems as

def shownEntries : List (Value × Value) → List String
  | [] => []
  | (k, v) :: rest => (shown k ++ ": " ++ shown v) :: shownEntries rest

def shownFields : List (String × Value) → List String
  | [] => []
  | (name, v) :: rest => (name ++ "=" ++ shown v) :: shownFields rest

end

/-- The plain text of a value: as `shown`, but a text or a decimal stands for itself. -/
def plain : Value → String
  | text s => s.mended
  | decimal d => d.toText
  | v => v.shown

@[simp] theorem plain_text (s : Spelling) : (text s).plain = s.mended := rfl

/-- The plain text of a value with the code points that a text has. -/
def spelling : Value → Spelling
  | text s => s
  | v => v.plain

@[simp] theorem spelling_text (s : Spelling) : (text s).spelling = s := rfl

end Value

end DocTable
