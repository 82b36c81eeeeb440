import DocTable.Value.Access

/-!
Attribute values: what the store holds under the name of an attribute. Each is of one of ten
kinds and is sent as a map with one entry, whose key is the code of the kind.
-/

namespace DocTable

/-- The kinds of attribute values. -/
inductive Tag where
  | text
  | number
  | bytes
  | bool
  | null
  | texts
  | numbers
  | byteSets
  | list
  | map
deriving DecidableEq

namespace Tag

/-- The code under which a kind is declared and sent. -/
def code : Tag → String
  | text => "S"
  | number => "N"
  | bytes => "B"
  | bool => "BOOL"
  | null => "NULL"
  | texts => "SS"
  | numbers => "NS"
  | byteSets => "BS"
  | list => "L"
  | map => "M"

def all : List Tag :=
  [text, number, bytes, bool, null, texts, numbers, byteSets, list, map]

/-- The kind with a given code. -/
def ofCode? (code : String) : Option Tag :=
  all.find? (·.code = code)

/-- The kind of the members of a set. -/
def member? : Tag → Option Tag
  | texts => some text
  | numbers => some number
  | byteSets => some bytes
  | _ => none

def isSet (t : Tag) : Bool :=
  t.member?.isSome

theorem ofCode?_code (t : Tag) : ofCode? t.code = some t := by
  cases t <;> decide

theorem code_of_ofCode? {code : String} {t : Tag} (h : ofCode? code = some t) : t.code = code := by
  simpa using List.find?_some h

theorem code_injective {t u : Tag} (h : t.code = u.code) : t = u := by
  have := congrArg ofCode? h
  simpa [ofCode?_code] using this

end Tag

/-- An attribute value. A number is a text, a byte string may be held as changeable. -/
inductive Attr where
  | text (s : Spelling)
  | number (s : Spelling)
  | bytes (changeable : Bool) (content : List UInt8)
  | bool (b : Bool)
  | null
  | texts (members : List Spelling)
  | numbers (members : List Spelling)
  | byteSets (members : List (List UInt8))
  | list (items : List Attr)
  | map (entries : List (Spelling × Attr))

instance : Inhabited Attr := ⟨.null⟩

namespace Attr

def tag : Attr → Tag
  | text _ => .text
  | number _ => .number
  | bytes .. => .bytes
  | bool _ => .bool
  | null => .null
  | texts _ => .texts
  | numbers _ => .numbers
  | byteSets _ => .byteSets
  | list _ => .list
  | map _ => .map

def single (t : Tag) (payload : Value) : Value :=
  .map [(.text t.code, payload)]

mutual

/-- The map of one entry that is sent for an attribute value. -/
def toValue : Attr → Value
  | text s => single .text (.text s)
  | number s => single .number (.text s)
  | bytes changeable content => single .bytes (.bytes changeable content)
  | bool b => single .bool (.bool b)
  | null => single .null (.bool true)
  | texts members => single .texts (.list (members.map .text))
  | numbers members => single .numbers (.list (members.map .text))
  | byteSets members => single .byteSets (.list (members.map (.bytes false)))
  | list items => single .list (.list (toValues items))
  | map entries => single .map (.map (toEntries entries))

def toValues : List Attr → List Value
  | [] => []
  | a :: as => toValue a :: toValues as

def toEntries : List (Spelling × Attr) → List (Value × Value)
  | [] => []
  | (name, a) :: rest => (.text name, toValue a) :: toEntries rest

end

end Attr

/-- The limits that the store puts on numbers. -/
def storeContext : Decimal.Context := ⟨38, -128, 126⟩

/-- Takes a number into the limits of the store. -/
def admitted (d : Decimal) : Outcome Decimal :=
  match storeContext.restrict d with
  | .ok d => .ok d
  | .error s => .error (.signal s)

end DocTable
